import Voytty.Core.Domain
import Voytty.Lib.PrefixCode

/-!
# Pairing tickets and transcripts

A pairing handshake authenticates byte strings, not messages: the secret-free
fields of a ticket and the transcript of a handshake are written in a canonical
form of fixed widths, length-prefixed texts and one counted list, behind a label
that names their purpose. The digest and the MAC are parameters.
-/

namespace Voytty.Pairing

open Voytty.Lib

/-! ## Fixed-width values and texts -/

abbrev DeviceId := Vector UInt8 32
abbrev PairOfferId := Vector UInt8 16
abbrev PairNonce := Vector UInt8 32
abbrev PairSecret := Vector UInt8 32
abbrev TicketDigest := Vector UInt8 32

def textBytes (text : String) : List UInt8 := text.toByteArray.data.toList

theorem textBytes_length (text : String) : (textBytes text).length = text.utf8ByteSize := by
  rw [textBytes, Array.length_toList, ByteArray.size_data, String.size_toByteArray]

theorem textBytes_injective : Function.Injective textBytes := fun _ _ h =>
  String.toByteArray_inj.mp (ByteArray.ext (Array.toList_inj.mp h))

/-- `char::is_control`: the two blocks of control characters. -/
def isControl (c : Char) : Bool := c.toNat < 0x20 || (0x7f ≤ c.toNat && c.toNat < 0xa0)

inductive DeviceDisplayNameError where
  | empty
  | tooLong (actual maximum : Nat)
  | controlCharacter
  deriving DecidableEq, Repr

def maxDeviceDisplayNameBytes : Nat := 128

structure DeviceDisplayName where
  value : String
  bounded : value.utf8ByteSize ≤ maxDeviceDisplayNameBytes
  nonempty : value.isEmpty = false
  printable : value.toList.any isControl = false

def DeviceDisplayName.new (value : String) : Except DeviceDisplayNameError DeviceDisplayName :=
  if hempty : value.isEmpty then .error .empty
  else if hlong : maxDeviceDisplayNameBytes < value.utf8ByteSize then
    .error (.tooLong value.utf8ByteSize maxDeviceDisplayNameBytes)
  else if hcontrol : value.toList.any isControl then .error .controlCharacter
  else .ok ⟨value, by omega, by simpa using hempty, by simpa using hcontrol⟩

inductive RelayHintError where
  | empty
  | tooLong (actual maximum : Nat)
  | notHttps
  | controlCharacter
  deriving DecidableEq, Repr

def maxRelayUrlBytes : Nat := 2048

/-- `byte.is_ascii_whitespace() || byte.is_ascii_control()`. -/
def isBlank (byte : UInt8) : Bool := byte ≤ 0x20 || byte = 0x7f

structure RelayHint where
  value : String
  bounded : value.utf8ByteSize ≤ maxRelayUrlBytes
  https : (textBytes "https://").isPrefixOf (textBytes value)
  visible : (textBytes value).any isBlank = false

def RelayHint.new (value : String) : Except RelayHintError RelayHint :=
  if value.isEmpty then .error .empty
  else if hlong : maxRelayUrlBytes < value.utf8ByteSize then
    .error (.tooLong value.utf8ByteSize maxRelayUrlBytes)
  else if hhttps : !(textBytes "https://").isPrefixOf (textBytes value) then .error .notHttps
  else if hblank : (textBytes value).any isBlank then .error .controlCharacter
  else .ok ⟨value, by omega, by simpa using hhttps, by simpa using hblank⟩

instance : DecidableEq RelayHint := fun a b =>
  decidable_of_iff (a.value = b.value) ⟨fun h => by cases a; cases b; cases h; rfl, (· ▸ rfl)⟩

/-! ## Errors and validation -/

inductive PairTicketError where
  | unsupportedFormatVersion (actual : UInt32)
  | unsupportedProtocolVersion (actual : UInt32)
  | emptyDeviceName
  | deviceNameTooLong (actual : Nat)
  | deviceNameControl
  | missingRelayHint
  | tooManyRelayHints (actual : Nat)
  | duplicateRelayHint
  | canonicalLengthOverflow
  deriving DecidableEq, Repr

def pairTicketFormatVersion : UInt32 := 1

def pairProtocolVersion : UInt32 := 1

def maxRelayHints : Nat := 4

def validateProtocolVersion (version : UInt32) : Except PairTicketError Unit :=
  if version ≠ pairProtocolVersion then .error (.unsupportedProtocolVersion version) else .ok ()

def parseDeviceName (name : String) : Except PairTicketError DeviceDisplayName :=
  (DeviceDisplayName.new name).mapError fun
    | .empty => .emptyDeviceName
    | .tooLong actual _ => .deviceNameTooLong actual
    | .controlCharacter => .deviceNameControl

def validateRelayHints (hints : List RelayHint) : Except PairTicketError Unit :=
  if hints.isEmpty then .error .missingRelayHint
  else if maxRelayHints < hints.length then .error (.tooManyRelayHints hints.length)
  else if (List.range hints.length).any fun i => (hints.take i).any fun h => hints[i]? = some h then
    .error .duplicateRelayHint
  else .ok ()

/-! ## Canonical bytes -/

def ticketDomain : List UInt8 := textBytes "voytty-pair-ticket-v1\x00"
def offerKeyDomain : List UInt8 := textBytes "voytty-pair-offer-key-v1\x00"
def transcriptDomain : List UInt8 := textBytes "voytty-pair-transcript-v1\x00"
def controllerProofDomain : List UInt8 := textBytes "voytty-pair-controller-proof-v1\x00"
def hostAcceptedDomain : List UInt8 := textBytes "voytty-pair-host-accepted-v1\x00"

def pushLenPrefixedUtf8 (out : List UInt8) (text : String) :
    Except PairTicketError (List UInt8) :=
  if text.utf8ByteSize < 2 ^ 16 then
    .ok (out ++ bigEndian 2 text.utf8ByteSize ++ textBytes text)
  else .error .canonicalLengthOverflow

def canonicalTicketBytes (formatVersion : UInt32) (hostDeviceId : DeviceId) (hostName : String)
    (relayHints : List RelayHint) (offerId : PairOfferId) (expiresAtUnix : UInt64) :
    Except PairTicketError (List UInt8) := do
  let out := ticketDomain ++ bigEndian 4 formatVersion.toNat ++ hostDeviceId.toList
  let out ← pushLenPrefixedUtf8 out hostName
  let out ←
    if relayHints.length < 2 ^ 8 then .ok (out ++ bigEndian 1 relayHints.length)
    else .error .canonicalLengthOverflow
  let out ← relayHints.foldlM (fun out hint => pushLenPrefixedUtf8 out hint.value) out
  pure (out ++ offerId.toList ++ bigEndian 8 expiresAtUnix.toNat)

def canonicalTranscriptBytes (ticketDigest : TicketDigest) (hostDeviceId controllerDeviceId : DeviceId)
    (offerId : PairOfferId) (controllerNonce hostNonce : PairNonce) (controllerName : String)
    (ticketFormatVersion pairProtocolVersion : UInt32) (expiresAtUnix : UInt64) :
    Except PairTicketError (List UInt8) := do
  let out := transcriptDomain ++ ticketDigest.toList ++ hostDeviceId.toList ++
    controllerDeviceId.toList ++ offerId.toList ++ controllerNonce.toList ++ hostNonce.toList
  let out ← pushLenPrefixedUtf8 out controllerName
  pure (out ++ bigEndian 4 ticketFormatVersion.toNat ++ bigEndian 4 pairProtocolVersion.toNat ++
    bigEndian 8 expiresAtUnix.toNat)

/-! ## Tickets and transcripts -/

/-- The public fields of a ticket, with the canonical bytes made of them. -/
structure PairTicketFields where
  formatVersion : UInt32
  hostDeviceId : DeviceId
  hostName : DeviceDisplayName
  relayHints : List RelayHint
  offerId : PairOfferId
  expiresAtUnix : UInt64
  canonical : List UInt8
  supported : formatVersion = pairTicketFormatVersion
  routed : validateRelayHints relayHints = .ok ()
  encoded : canonicalTicketBytes formatVersion hostDeviceId hostName.value relayHints offerId
    expiresAtUnix = .ok canonical

def PairTicketFields.new (formatVersion : UInt32) (hostDeviceId : DeviceId) (hostName : String)
    (relayHints : List RelayHint) (offerId : PairOfferId) (expiresAtUnix : UInt64) :
    Except PairTicketError PairTicketFields :=
  if hversion : formatVersion ≠ pairTicketFormatVersion then
    .error (.unsupportedFormatVersion formatVersion)
  else
    match parseDeviceName hostName with
    | .error error => .error error
    | .ok hostName =>
      match hrouted : validateRelayHints relayHints with
      | .error error => .error error
      | .ok () =>
        match hencoded : canonicalTicketBytes formatVersion hostDeviceId hostName.value relayHints
          offerId expiresAtUnix with
        | .error error => .error error
        | .ok canonical =>
          .ok ⟨formatVersion, hostDeviceId, hostName, relayHints, offerId, expiresAtUnix, canonical,
            not_not.mp hversion, hrouted, hencoded⟩

/-- The transcript of one handshake, with its canonical bytes. -/
structure PairTranscript where
  ticketDigest : TicketDigest
  hostDeviceId : DeviceId
  controllerDeviceId : DeviceId
  offerId : PairOfferId
  controllerNonce : PairNonce
  hostNonce : PairNonce
  controllerName : DeviceDisplayName
  ticketFormatVersion : UInt32
  protocolVersion : UInt32
  expiresAtUnix : UInt64
  canonical : List UInt8
  supported : validateProtocolVersion protocolVersion = .ok ()
  encoded : canonicalTranscriptBytes ticketDigest hostDeviceId controllerDeviceId offerId
    controllerNonce hostNonce controllerName.value ticketFormatVersion protocolVersion
    expiresAtUnix = .ok canonical

def PairTranscript.new (sha256 : List UInt8 → TicketDigest) (ticket : PairTicketFields)
    (controllerDeviceId : DeviceId) (controllerName : String)
    (controllerNonce hostNonce : PairNonce) (protocolVersion : UInt32) :
    Except PairTicketError PairTranscript :=
  match hsupported : validateProtocolVersion protocolVersion with
  | .error error => .error error
  | .ok () =>
    match parseDeviceName controllerName with
    | .error error => .error error
    | .ok controllerName =>
      let ticketDigest := sha256 ticket.canonical
      match hencoded : canonicalTranscriptBytes ticketDigest ticket.hostDeviceId controllerDeviceId
        ticket.offerId controllerNonce hostNonce controllerName.value ticket.formatVersion
        protocolVersion ticket.expiresAtUnix with
      | .error error => .error error
      | .ok canonical =>
        .ok ⟨ticketDigest, ticket.hostDeviceId, controllerDeviceId, ticket.offerId, controllerNonce,
          hostNonce, controllerName, ticket.formatVersion, protocolVersion, ticket.expiresAtUnix,
          canonical, hsupported, hencoded⟩

/-! ## What is authenticated -/

/-- A MAC: its tags, their bytes for use as a key, and the tag of a byte string. -/
structure Mac where
  Tag : Type
  decEq : DecidableEq Tag
  bytes : Tag → List UInt8
  sign : List UInt8 → List UInt8 → Tag

instance (mac : Mac) : DecidableEq mac.Tag := mac.decEq

def Mac.verify (mac : Mac) (key data : List UInt8) (proof : mac.Tag) : Bool :=
  mac.sign key data = proof

def PairTicketFields.offerKeyData (ticket : PairTicketFields) : List UInt8 :=
  offerKeyDomain ++ ticket.canonical

def PairTicketFields.offerKey (mac : Mac) (ticket : PairTicketFields) (secret : PairSecret) :
    mac.Tag :=
  mac.sign secret.toList ticket.offerKeyData

namespace PairTranscript

variable (mac : Mac) (transcript : PairTranscript) (offerKey : mac.Tag)

def controllerProofData : List UInt8 := controllerProofDomain ++ transcript.canonical

def hostConfirmationData (generation : UInt64) : List UInt8 :=
  hostAcceptedDomain ++ transcript.canonical ++ bigEndian 8 generation.toNat

def controllerProof : mac.Tag := mac.sign (mac.bytes offerKey) transcript.controllerProofData

def verifyControllerProof (proof : mac.Tag) : Bool :=
  mac.verify (mac.bytes offerKey) transcript.controllerProofData proof

def hostConfirmation (generation : UInt64) : mac.Tag :=
  mac.sign (mac.bytes offerKey) (transcript.hostConfirmationData generation)

def verifyHostConfirmation (generation : UInt64) (proof : mac.Tag) : Bool :=
  mac.verify (mac.bytes offerKey) (transcript.hostConfirmationData generation) proof

end PairTranscript

/-! ## The canonical bytes determine the fields -/

def textCode (text : String) : List UInt8 := bigEndian 2 text.utf8ByteSize ++ textBytes text

theorem prefixCode_vector (n : Nat) : PrefixCode fun v : Vector UInt8 n => v.toList :=
  .of_length (n := n) (fun v => by simp) fun _ _ h => Vector.toList_inj.mp h

theorem prefixCode_u32 : PrefixCode fun v : UInt32 => bigEndian 4 v.toNat :=
  .bigEndian (fun _ _ h => UInt32.toNat_inj.mp h) fun v => v.toNat_lt

theorem prefixCode_u64 : PrefixCode fun v : UInt64 => bigEndian 8 v.toNat :=
  .bigEndian (fun _ _ h => UInt64.toNat_inj.mp h) fun v => v.toNat_lt

theorem prefixCode_text {α : Type} {value : α → String} (hvalue : Function.Injective value)
    (hbound : ∀ a, (value a).utf8ByteSize < 256 ^ 2) : PrefixCode fun a => textCode (value a) := by
  have hcode : PrefixCode fun a =>
      bigEndian 2 (textBytes (value a)).length ++ textBytes (value a) :=
    .lengthPrefixed (textBytes_injective.comp hvalue) fun a => by
      rw [textBytes_length]
      exact hbound a
  simpa only [textCode, textBytes_length] using hcode

theorem prefixCode_name : PrefixCode fun name : DeviceDisplayName => textCode name.value :=
  prefixCode_text (fun a b h => by cases a; cases b; simpa using h)
    fun name => name.bounded.trans_lt (by decide)

theorem prefixCode_hint : PrefixCode fun hint : RelayHint => textCode hint.value :=
  prefixCode_text (fun a b h => by cases a; cases b; simpa using h)
    fun hint => hint.bounded.trans_lt (by decide)

theorem pushLenPrefixedUtf8_eq {text : String} (h : text.utf8ByteSize < 2 ^ 16)
    (out : List UInt8) : pushLenPrefixedUtf8 out text = .ok (out ++ textCode text) := by
  rw [pushLenPrefixedUtf8, if_pos h, textCode, List.append_assoc]

theorem DeviceDisplayName.push (name : DeviceDisplayName) (out : List UInt8) :
    pushLenPrefixedUtf8 out name.value = .ok (out ++ textCode name.value) :=
  pushLenPrefixedUtf8_eq (name.bounded.trans_lt (by decide)) out

theorem pushHints (hints : List RelayHint) (out : List UInt8) :
    hints.foldlM (fun out hint => pushLenPrefixedUtf8 out hint.value) out =
      .ok (out ++ hints.flatMap fun hint => textCode hint.value) := by
  induction hints generalizing out with
  | nil => simp [pure, Except.pure]
  | cons hint hints ih =>
    rw [List.foldlM_cons, pushLenPrefixedUtf8_eq (hint.bounded.trans_lt (by decide))]
    exact (ih _).trans (by rw [List.flatMap_cons, List.append_assoc])

theorem validateRelayHints_length {hints : List RelayHint}
    (h : validateRelayHints hints = .ok ()) : hints.length ≤ maxRelayHints := by
  unfold validateRelayHints at h
  split at h
  · cases h
  · split at h
    · cases h
    · omega

/-- A ticket's bytes, written out; no length overflows its prefix. -/
theorem PairTicketFields.canonical_eq (ticket : PairTicketFields) :
    ticket.canonical = ticketDomain ++ (bigEndian 4 ticket.formatVersion.toNat ++
      (ticket.hostDeviceId.toList ++ (textCode ticket.hostName.value ++
      (bigEndian 1 ticket.relayHints.length ++
      ((ticket.relayHints.flatMap fun hint => textCode hint.value) ++
      (ticket.offerId.toList ++ bigEndian 8 ticket.expiresAtUnix.toNat)))))) := by
  have hlength := validateRelayHints_length ticket.routed
  have h := ticket.encoded
  rw [canonicalTicketBytes, ticket.hostName.push] at h
  have hcount : ticket.relayHints.length < 2 ^ 8 := hlength.trans_lt (by decide)
  simp only [bind, Except.bind, if_pos hcount, pushHints] at h
  have h := (Except.ok.inj h).symm
  simpa only [List.append_assoc] using h

theorem PairTranscript.canonical_eq (transcript : PairTranscript) :
    transcript.canonical = transcriptDomain ++ (transcript.ticketDigest.toList ++
      (transcript.hostDeviceId.toList ++ (transcript.controllerDeviceId.toList ++
      (transcript.offerId.toList ++ (transcript.controllerNonce.toList ++
      (transcript.hostNonce.toList ++ (textCode transcript.controllerName.value ++
      (bigEndian 4 transcript.ticketFormatVersion.toNat ++
      (bigEndian 4 transcript.protocolVersion.toNat ++
      bigEndian 8 transcript.expiresAtUnix.toNat))))))))) := by
  have h := transcript.encoded
  rw [canonicalTranscriptBytes, transcript.controllerName.push] at h
  have h := (Except.ok.inj h).symm
  simpa only [List.append_assoc] using h

/-- Each field is read back behind the ones before it. -/
theorem PairTicketFields.eq_of_canonical {a b : PairTicketFields} {xs ys : List UInt8}
    (h : a.canonical ++ xs = b.canonical ++ ys) : a = b ∧ xs = ys := by
  rw [a.canonical_eq, b.canonical_eq] at h
  simp only [List.append_assoc] at h
  have h := List.append_cancel_left h
  obtain ⟨hformat, h⟩ := prefixCode_u32 h
  obtain ⟨hdevice, h⟩ := prefixCode_vector 32 h
  obtain ⟨hname, h⟩ := prefixCode_name h
  obtain ⟨hcount, h⟩ := List.append_inj h (by rw [bigEndian_length, bigEndian_length])
  have hlength : a.relayHints.length = b.relayHints.length :=
    bigEndian_inj ((validateRelayHints_length a.routed).trans_lt (by decide))
      ((validateRelayHints_length b.routed).trans_lt (by decide)) hcount
  obtain ⟨hhints, h⟩ := prefixCode_hint.flatMap hlength h
  obtain ⟨hoffer, h⟩ := prefixCode_vector 16 h
  obtain ⟨hexpires, h⟩ := prefixCode_u64 h
  refine ⟨?_, h⟩
  have hbytes : a.canonical = b.canonical := by
    rw [a.canonical_eq, b.canonical_eq, hformat, hdevice, hname, hhints, hoffer, hexpires]
  cases a
  cases b
  simp_all

theorem PairTranscript.eq_of_canonical {a b : PairTranscript} {xs ys : List UInt8}
    (h : a.canonical ++ xs = b.canonical ++ ys) : a = b ∧ xs = ys := by
  rw [a.canonical_eq, b.canonical_eq] at h
  simp only [List.append_assoc] at h
  have h := List.append_cancel_left h
  obtain ⟨hdigest, h⟩ := prefixCode_vector 32 h
  obtain ⟨hhost, h⟩ := prefixCode_vector 32 h
  obtain ⟨hcontroller, h⟩ := prefixCode_vector 32 h
  obtain ⟨hoffer, h⟩ := prefixCode_vector 16 h
  obtain ⟨hnonce, h⟩ := prefixCode_vector 32 h
  obtain ⟨hhostNonce, h⟩ := prefixCode_vector 32 h
  obtain ⟨hname, h⟩ := prefixCode_name h
  obtain ⟨hformat, h⟩ := prefixCode_u32 h
  obtain ⟨hprotocol, h⟩ := prefixCode_u32 h
  obtain ⟨hexpires, h⟩ := prefixCode_u64 h
  refine ⟨?_, h⟩
  have hbytes : a.canonical = b.canonical := by
    rw [a.canonical_eq, b.canonical_eq, hdigest, hhost, hcontroller, hoffer, hnonce, hhostNonce,
      hname, hformat, hprotocol, hexpires]
  cases a
  cases b
  simp_all

/-! ## Purposes -/

/-- A byte string that is authenticated, by its purpose. -/
inductive Authenticated where
  | offerKey (ticket : PairTicketFields)
  | controllerProof (transcript : PairTranscript)
  | hostConfirmation (transcript : PairTranscript) (generation : UInt64)

def Authenticated.data : Authenticated → List UInt8
  | offerKey ticket => ticket.offerKeyData
  | controllerProof transcript => transcript.controllerProofData
  | hostConfirmation transcript generation => transcript.hostConfirmationData generation

-- the labels differ in the letter behind `voytty-pair-`
theorem controllerProofDomain_ne_hostAcceptedDomain (xs ys : List UInt8) :
    controllerProofDomain ++ xs ≠ hostAcceptedDomain ++ ys :=
  label_ne (n := 13) (by decide) (by decide) (by decide) xs ys

theorem controllerProofDomain_ne_offerKeyDomain (xs ys : List UInt8) :
    controllerProofDomain ++ xs ≠ offerKeyDomain ++ ys :=
  label_ne (n := 13) (by decide) (by decide) (by decide) xs ys

theorem hostAcceptedDomain_ne_offerKeyDomain (xs ys : List UInt8) :
    hostAcceptedDomain ++ xs ≠ offerKeyDomain ++ ys :=
  label_ne (n := 13) (by decide) (by decide) (by decide) xs ys

theorem PairTranscript.hostConfirmationData_inj {a b : PairTranscript} {g g' : UInt64}
    (h : a.hostConfirmationData g = b.hostConfirmationData g') : a = b ∧ g = g' := by
  simp only [hostConfirmationData, List.append_assoc] at h
  obtain ⟨heq, hrest⟩ := PairTranscript.eq_of_canonical (List.append_cancel_left h)
  exact ⟨heq, (@prefixCode_u64 g g' [] [] (by simpa using hrest)).1⟩

/-- No byte string is authenticated for two purposes, two transcripts or two tickets. -/
theorem Authenticated.data_injective : Function.Injective Authenticated.data := by
  intro a b h
  cases a with
  | offerKey ticket =>
    cases b with
    | offerKey ticket' =>
      have heq := List.append_cancel_left (show offerKeyDomain ++ _ = offerKeyDomain ++ _ from h)
      rw [(PairTicketFields.eq_of_canonical (congrArg (· ++ []) heq)).1]
    | controllerProof => exact absurd h.symm (controllerProofDomain_ne_offerKeyDomain _ _)
    | hostConfirmation =>
      simp only [data, PairTranscript.hostConfirmationData, List.append_assoc] at h
      exact absurd h.symm (hostAcceptedDomain_ne_offerKeyDomain _ _)
  | controllerProof transcript =>
    cases b with
    | offerKey => exact absurd h (controllerProofDomain_ne_offerKeyDomain _ _)
    | controllerProof transcript' =>
      have heq := List.append_cancel_left
        (show controllerProofDomain ++ _ = controllerProofDomain ++ _ from h)
      rw [(PairTranscript.eq_of_canonical (congrArg (· ++ []) heq)).1]
    | hostConfirmation =>
      simp only [data, PairTranscript.hostConfirmationData, List.append_assoc] at h
      exact absurd h (controllerProofDomain_ne_hostAcceptedDomain _ _)
  | hostConfirmation transcript generation =>
    cases b with
    | offerKey =>
      simp only [data, PairTranscript.hostConfirmationData, List.append_assoc] at h
      exact absurd h (hostAcceptedDomain_ne_offerKeyDomain _ _)
    | controllerProof =>
      simp only [data, PairTranscript.hostConfirmationData, List.append_assoc] at h
      exact absurd h.symm (controllerProofDomain_ne_hostAcceptedDomain _ _)
    | hostConfirmation =>
      obtain ⟨rfl, rfl⟩ := PairTranscript.hostConfirmationData_inj h
      rfl

/-- Equal tags are of equal byte strings. -/
def Mac.CollisionFree (mac : Mac) : Prop :=
  ∀ key key' data data', mac.sign key data = mac.sign key' data' → data = data'

/-- A proof is accepted only for the purpose, and the transcript, it was made for. -/
structure Mac.Bound (mac : Mac) : Prop where
  controllerProof : ∀ (a b : PairTranscript) (key key' : mac.Tag),
    a.verifyControllerProof mac key (b.controllerProof mac key') → a = b
  hostConfirmation : ∀ (a b : PairTranscript) (key key' : mac.Tag) (g g' : UInt64),
    a.verifyHostConfirmation mac key g (b.hostConfirmation mac key' g') → a = b ∧ g = g'
  apart : ∀ (a b : PairTranscript) (key key' : mac.Tag) (g : UInt64),
    a.verifyControllerProof mac key (b.hostConfirmation mac key' g) = false ∧
    a.verifyHostConfirmation mac key g (b.controllerProof mac key') = false
  offerKey : ∀ (a : PairTranscript) (ticket : PairTicketFields) (key : mac.Tag)
    (secret : PairSecret) (g : UInt64),
    a.verifyControllerProof mac key (ticket.offerKey mac secret) = false ∧
    a.verifyHostConfirmation mac key g (ticket.offerKey mac secret) = false
  tickets : ∀ (a b : PairTicketFields) (secret secret' : PairSecret),
    a.offerKey mac secret = b.offerKey mac secret' → a = b

theorem Mac.CollisionFree.bound {mac : Mac} (h : mac.CollisionFree) : mac.Bound := by
  have hsame : ∀ (a b : Authenticated) {key key' : List UInt8},
      mac.verify key a.data (mac.sign key' b.data) → a = b := fun a b _ _ hv =>
    Authenticated.data_injective (h _ _ _ _ (by simpa [Mac.verify] using hv))
  have hother : ∀ (a b : Authenticated) {key key' : List UInt8}, a ≠ b →
      mac.verify key a.data (mac.sign key' b.data) = false := fun a b _ _ hne =>
    Bool.eq_false_iff.mpr fun hv => hne (hsame a b hv)
  constructor
  · intro a b key key' hv
    exact Authenticated.controllerProof.inj (hsame (.controllerProof a) (.controllerProof b) hv)
  · intro a b key key' g g' hv
    exact Authenticated.hostConfirmation.inj
      (hsame (.hostConfirmation a g) (.hostConfirmation b g') hv)
  · intro a b key key' g
    exact ⟨hother (.controllerProof a) (.hostConfirmation b g) nofun,
      hother (.hostConfirmation a g) (.controllerProof b) nofun⟩
  · intro a ticket key secret g
    exact ⟨hother (.controllerProof a) (.offerKey ticket) nofun,
      hother (.hostConfirmation a g) (.offerKey ticket) nofun⟩
  · intro a b secret secret' heq
    exact Authenticated.offerKey.inj
      (@Authenticated.data_injective (.offerKey a) (.offerKey b) (h _ _ _ _ heq))

/-- Canonical bytes determine tickets and transcripts, the byte strings authenticated as
controller proof, host confirmation and offer key are pairwise different, and so a proof
under a MAC without collisions is worth nothing elsewhere. -/
theorem pairing_encodings_unambiguous :
    (∀ a b : PairTicketFields, a.canonical = b.canonical → a = b) ∧
    (∀ a b : PairTranscript, a.canonical = b.canonical → a = b) ∧
    (∀ (a b : PairTranscript) (ticket : PairTicketFields) (g : UInt64),
      a.controllerProofData ≠ b.hostConfirmationData g ∧
      a.controllerProofData ≠ ticket.offerKeyData ∧
      b.hostConfirmationData g ≠ ticket.offerKeyData) ∧
    (∀ mac : Mac, mac.CollisionFree → mac.Bound) := by
  refine ⟨fun a b h => ?_, fun a b h => ?_, fun a b ticket g => ⟨?_, ?_, ?_⟩, fun _ h => h.bound⟩
  · exact (PairTicketFields.eq_of_canonical (congrArg (· ++ []) h)).1
  · exact (PairTranscript.eq_of_canonical (congrArg (· ++ []) h)).1
  · intro h
    cases @Authenticated.data_injective (.controllerProof a) (.hostConfirmation b g) h
  · intro h
    cases @Authenticated.data_injective (.controllerProof a) (.offerKey ticket) h
  · intro h
    cases @Authenticated.data_injective (.hostConfirmation b g) (.offerKey ticket) h

/-- The byte string as its own tag. -/
def echoMac : Mac where
  Tag := List UInt8
  decEq := inferInstance
  bytes := id
  sign _ data := data

def sampleName : DeviceDisplayName := ⟨"desk", by decide, by decide, by decide⟩

def sampleRelay : RelayHint := ⟨"https://r", by decide, by decide, by decide⟩

def sampleTranscript (controllerNonce hostNonce : PairNonce) : PairTranscript where
  ticketDigest := .replicate 32 1
  hostDeviceId := .replicate 32 2
  controllerDeviceId := .replicate 32 3
  offerId := .replicate 16 4
  controllerNonce := controllerNonce
  hostNonce := hostNonce
  controllerName := sampleName
  ticketFormatVersion := 1
  protocolVersion := 1
  expiresAtUnix := 600
  canonical := _
  supported := rfl
  encoded := rfl

/-- Two handshakes that swap their nonces have different bytes. -/
theorem pairing_encodings_unambiguous_swapped :
    (sampleTranscript (.replicate 32 5) (.replicate 32 6)).canonical ≠
      (sampleTranscript (.replicate 32 6) (.replicate 32 5)).canonical ∧ echoMac.Bound := by
  refine ⟨fun h => ?_, pairing_encodings_unambiguous.2.2.2 echoMac fun _ _ _ _ h => h⟩
  have hnonce := congrArg PairTranscript.controllerNonce (pairing_encodings_unambiguous.2.1 _ _ h)
  exact absurd hnonce (by decide)

end Voytty.Pairing
