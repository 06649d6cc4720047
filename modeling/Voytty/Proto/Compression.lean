import Voytty.Lib.StreamDecoder
import Voytty.Proto.Framing

/-!
# Compressed terminal frames

Snapshots, deltas and history may be sent with a zlib payload
(`proto/src/compression.rs`). The sender re-reads the frames it has encoded and
compresses those that gain from it; the receiver expands a payload in pieces and
refuses what is longer than a frame may be. The zlib library is a streaming
decoder with a compressor that it inverts.
-/

namespace Voytty.Proto

open Voytty.Lib StreamDecoder

/-! ## Expanding a payload -/

section Inflate

variable {σ : Type} (zlib : StreamDecoder σ UInt8 UInt8) (payload : List UInt8) (maximum : Nat)

def chunkBytes : Nat := 4096

/-- Where the loop of `decode_payload` stands. -/
structure Inflating (σ : Type) where
  decoder : σ
  consumed : Nat := 0
  output : List UInt8 := []

/-- One pass of the loop; the flag says that the stream has ended. -/
def inflatePass (s : Inflating σ) : Except ProtocolError (Bool × Inflating σ) :=
  match zlib.call s.decoder (payload.drop s.consumed) chunkBytes with
  | none => .error .invalidPayloadEncoding
  | some c =>
    let consumed := s.consumed + c.read
    if s.output.length + c.written.length > maximum then
      .error (.frameTooLarge (s.output.length + c.written.length))
    else
      let next := ⟨c.state, consumed, s.output ++ c.written⟩
      if c.ended then
        if consumed ≠ payload.length then .error .invalidPayloadEncoding else .ok (true, next)
      else if c.read = 0 ∧ c.written = [] then .error .invalidPayloadEncoding
      else .ok (false, next)

/-- The loop; no result if it is not through after that many passes. -/
def inflateLoop : Nat → Inflating σ → Option (Except ProtocolError (List UInt8))
  | 0, _ => none
  | passes + 1, s =>
    match inflatePass zlib payload maximum s with
    | .error e => some (.error e)
    | .ok (true, s) => some (.ok s.output)
    | .ok (false, s) => inflateLoop passes s

/-- Every pass but the last reads or writes something, so this many are enough. -/
def inflatePasses : Nat := payload.length + maximum + 1

def inflatePayload : Except ProtocolError (List UInt8) :=
  (inflateLoop zlib payload maximum (inflatePasses payload maximum) ⟨zlib.start, 0, []⟩).getD
    (.error .invalidPayloadEncoding)

end Inflate

/-! ## Messages in bytes -/

def numberField (tag : UInt8) (value : Nat) : List UInt8 :=
  if value = 0 then [] else tag :: encodeVarint value

def bytesField (tag : UInt8) (value : List UInt8) : List UInt8 :=
  if value = [] then [] else tag :: (encodeVarint value.length ++ value)

/-- `WireFrame::encode_to_vec`: the fields of `proto/voytty/v2/wire.proto` in the order of their
numbers. -/
def encodeWire (wire : WireFrame) : List UInt8 :=
  numberField 0x08 wire.wireMajor ++ numberField 0x10 wire.kind ++ bytesField 0x1a wire.payload ++
    numberField 0x20 wire.requestId ++ numberField 0x28 wire.deadlineMs ++
    numberField 0x30 wire.payloadEncoding

/-- The field values fit their types. -/
structure WireFrame.InRange (wire : WireFrame) : Prop where
  wireMajor : wire.wireMajor < 2 ^ 32
  kind : wire.kind < 2 ^ 32
  payload : wire.payload.length < 2 ^ 64
  requestId : wire.requestId < 2 ^ 64
  deadlineMs : wire.deadlineMs < 2 ^ 32
  payloadEncoding : wire.payloadEncoding < 2 ^ 32

/-! ## Compressing -/

def minCompressBytes : Nat := 1024

/-- A payload in the form in which it is sent, and that form. -/
def compressedPayload (deflate : List UInt8 → Option (List UInt8)) (frame : DecodedFrame) :
    Except ProtocolError (List UInt8 × Nat) :=
  if frame.kind.isTerminalSurface ∧ frame.payload.length ≥ minCompressBytes then
    match deflate frame.payload with
    | none => .error .invalidPayloadEncoding
    | some compressed =>
      if compressed.length + 64 < frame.payload.length then .ok (compressed, Proto.zlib)
      else .ok (frame.payload, 0)
  else .ok (frame.payload, 0)

def compressFrame (deflate : List UInt8 → Option (List UInt8)) (frame : DecodedFrame) :
    Except ProtocolError (List UInt8) :=
  match compressedPayload deflate frame with
  | .error e => .error e
  | .ok (payload, payloadEncoding) =>
    let body := encodeWire { frame.wire with payload, payloadEncoding }
    if body.length > maxFrameBytes then .error (.frameTooLarge body.length)
    else .ok (framed body)

def compressFrames (deflate : List UInt8 → Option (List UInt8)) :
    List DecodedFrame → Except ProtocolError (List UInt8)
  | [] => .ok []
  | frame :: frames =>
    match compressFrame deflate frame with
    | .error e => .error e
    | .ok bytes =>
      match compressFrames deflate frames with
      | .error e => .error e
      | .ok more => .ok (bytes ++ more)

def compressTerminalFrames (codec : Codec) (deflate : List UInt8 → Option (List UInt8))
    (input : List UInt8) : Except ProtocolError (List UInt8) :=
  match ({} : FrameDecoder).feed codec input with
  | .error e => .error e
  | .ok (frames, decoder) =>
    match decoder.finish with
    | .error e => .error e
    | .ok () => compressFrames deflate frames

/-! ## The loop -/

section Loop

variable {σ : Type} {zlib : StreamDecoder σ UInt8 UInt8} {payload : List UInt8} {maximum : Nat}
  {s s' : Inflating σ} {ended : Bool}

theorem inflatePass_ok (h : inflatePass zlib payload maximum s = .ok (ended, s')) :
    ∃ c, zlib.call s.decoder (payload.drop s.consumed) chunkBytes = some c ∧
      s' = ⟨c.state, s.consumed + c.read, s.output ++ c.written⟩ ∧ c.ended = ended ∧
      (s.output ++ c.written).length ≤ maximum ∧
      (ended = true → s.consumed + c.read = payload.length) ∧
      (ended = false → 0 < c.read ∨ c.written ≠ []) := by
  unfold inflatePass at h
  split at h
  · cases h
  rename_i c hcall
  dsimp only at h
  split at h
  · cases h
  rename_i hroom
  refine ⟨c, hcall, ?_⟩
  have hlength : (s.output ++ c.written).length ≤ maximum := by
    rw [List.length_append]
    omega
  split at h
  · rename_i hended
    split at h
    · cases h
    · rename_i hall
      cases h
      exact ⟨rfl, hended, hlength, fun _ => not_not.1 hall, nofun⟩
  · rename_i hgoing
    split at h
    · cases h
    · rename_i hprogress
      cases h
      refine ⟨rfl, by simpa using hgoing, hlength, nofun, fun _ => ?_⟩
      by_cases hread : c.read = 0
      · exact .inr fun hwritten => hprogress ⟨hread, hwritten⟩
      · exact .inl (Nat.pos_of_ne_zero hread)

structure Going (zlib : StreamDecoder σ UInt8 UInt8) (payload : List UInt8) (maximum : Nat)
    (s : Inflating σ) : Prop where
  reached : Reached zlib payload s.consumed s.output s.decoder
  bounded : s.output.length ≤ maximum

theorem Going.start (zlib : StreamDecoder σ UInt8 UInt8) (payload : List UInt8) (maximum : Nat) :
    Going zlib payload maximum ⟨zlib.start, 0, []⟩ := ⟨.start, Nat.zero_le _⟩

theorem Going.pass (h : Going zlib payload maximum s)
    (hpass : inflatePass zlib payload maximum s = .ok (false, s')) :
    Going zlib payload maximum s' := by
  obtain ⟨c, hcall, rfl, hgoing, hbounded, -, -⟩ := inflatePass_ok hpass
  exact ⟨h.reached.call (by decide) hcall hgoing, hbounded⟩

/-- Between two passes of the loop. -/
def NextPass (zlib : StreamDecoder σ UInt8 UInt8) (payload : List UInt8) (maximum : Nat)
    (s s' : Inflating σ) : Prop := inflatePass zlib payload maximum s = .ok (false, s')

theorem inflateLoop_some (hzlib : Lawful zlib) (passes : Nat) (h : Going zlib payload maximum s)
    (hpasses : payload.length + maximum < passes + s.consumed + s.output.length) :
    ∃ result, ∀ more, inflateLoop zlib payload maximum (passes + more) s = some result := by
  induction passes generalizing s with
  | zero =>
    have hconsumed := h.reached.le hzlib.read_le
    have hbounded := h.bounded
    omega
  | succ passes ih =>
    have hloop : ∀ more, inflateLoop zlib payload maximum (passes + 1 + more) s =
        match inflatePass zlib payload maximum s with
        | .error e => some (.error e)
        | .ok (true, s) => some (.ok s.output)
        | .ok (false, s) => inflateLoop zlib payload maximum (passes + more) s := by
      intro more
      rw [Nat.add_right_comm]
      rfl
    simp only [hloop]
    cases hpass : inflatePass zlib payload maximum s with
    | error e => exact ⟨_, fun _ => rfl⟩
    | ok out =>
      obtain ⟨ended, s'⟩ := out
      cases ended with
      | true => exact ⟨_, fun _ => rfl⟩
      | false =>
        refine ih (h.pass hpass) ?_
        obtain ⟨c, -, rfl, -, -, -, hprogress⟩ := inflatePass_ok hpass
        rw [List.length_append]
        have hmore : 0 < c.read + c.written.length := by
          rcases hprogress rfl with hread | hwritten
          · omega
          · have := List.length_pos_iff.2 hwritten
            omega
        dsimp only
        omega

theorem inflateLoop_ok {passes : Nat} {content : List UInt8} (h : Going zlib payload maximum s)
    (hok : inflateLoop zlib payload maximum passes s = some (.ok content)) :
    Content zlib payload content ∧ content.length ≤ maximum := by
  induction passes generalizing s with
  | zero => cases hok
  | succ passes ih =>
    unfold inflateLoop at hok
    split at hok
    · cases hok
    · rename_i s' hpass
      cases hok
      obtain ⟨c, hcall, rfl, hended, hbounded, hall, -⟩ := inflatePass_ok hpass
      exact ⟨⟨_, _, _, _, c, h.reached, by decide, hcall, hended, hall rfl, rfl⟩, hbounded⟩
    · rename_i s' hpass
      exact ih (h.pass hpass) hok

theorem inflateLoop_content (hzlib : Lawful zlib) {passes : Nat} {content : List UInt8}
    {result : Except ProtocolError (List UInt8)} (hcontent : Content zlib payload content)
    (hfits : content.length ≤ maximum) (h : Going zlib payload maximum s)
    (hloop : inflateLoop zlib payload maximum passes s = some result) : result = .ok content := by
  induction passes generalizing s with
  | zero => cases hloop
  | succ passes ih =>
    obtain ⟨c, hcall, hdecoding⟩ := hzlib.decodes payload content hcontent payload
      (.inl (List.prefix_refl _)) _ _ _ h.reached chunkBytes (by decide)
    have hroom : ¬ s.output.length + c.written.length > maximum := by
      have hlength := hdecoding.agrees.length_le
      rw [List.length_append] at hlength
      omega
    unfold inflateLoop at hloop
    cases hended : c.ended with
    | true =>
      obtain ⟨hall, hsame⟩ := hdecoding.ends hended
      have hpass : inflatePass zlib payload maximum s =
          .ok (true, ⟨c.state, s.consumed + c.read, content⟩) := by
        unfold inflatePass
        rw [hcall]
        simp only [hended, hall, if_neg hroom, hsame, if_true, ne_eq, not_true_eq_false, if_false]
      rw [hpass] at hloop
      exact (Option.some.inj hloop).symm
    | false =>
      have hprogress := hdecoding.progress hended (List.prefix_refl _)
      have hpass : inflatePass zlib payload maximum s =
          .ok (false, ⟨c.state, s.consumed + c.read, s.output ++ c.written⟩) := by
        unfold inflatePass
        rw [hcall]
        have hmoved : ¬ (c.read = 0 ∧ c.written = []) := by
          rintro ⟨hread, hwritten⟩
          rcases hprogress with h | h
          · omega
          · exact h hwritten
        simp only [hended, if_neg hroom, if_neg hmoved, Bool.false_eq_true, if_false]
      have hgoing := h.pass hpass
      rw [hpass] at hloop
      exact ih hgoing hloop

theorem inflatePayload_some (hzlib : Lawful zlib) (payload : List UInt8) (maximum : Nat) :
    ∀ passes ≥ inflatePasses payload maximum,
      inflateLoop zlib payload maximum passes ⟨zlib.start, 0, []⟩ =
        some (inflatePayload zlib payload maximum) := by
  obtain ⟨result, hresult⟩ := inflateLoop_some hzlib (inflatePasses payload maximum)
    (Going.start zlib payload maximum) (by simp [inflatePasses])
  intro passes hpasses
  obtain ⟨more, rfl⟩ := Nat.exists_eq_add_of_le hpasses
  rw [hresult more, inflatePayload, ← Nat.add_zero (inflatePasses payload maximum), hresult 0]
  rfl

/-- Exactly the complete streams whose content fits are accepted. -/
theorem inflatePayload_ok (hzlib : Lawful zlib) {content : List UInt8} :
    inflatePayload zlib payload maximum = .ok content ↔
      Content zlib payload content ∧ content.length ≤ maximum := by
  have hloop := inflatePayload_some hzlib payload maximum _ le_rfl
  constructor
  · intro hok
    rw [hok] at hloop
    exact inflateLoop_ok (Going.start ..) hloop
  · rintro ⟨hcontent, hfits⟩
    exact inflateLoop_content hzlib hcontent hfits (Going.start ..) hloop

end Loop

/-! ## Sizes -/

theorem encodeVarint_length_mono {a b : Nat} (h : a ≤ b) :
    (encodeVarint a).length ≤ (encodeVarint b).length := by
  induction b using Nat.strongRecOn generalizing a with
  | ind b ih =>
    rw [encodeVarint.eq_def a, encodeVarint.eq_def b]
    split
    · split <;> simp
    · rename_i hlarge
      rw [if_neg (by omega)]
      have hrest := ih (b / 128) (by omega) (Nat.div_le_div_right h)
      simpa using hrest

variable {tag : UInt8} {value : Nat} {tags rest : List UInt8}

theorem bytesField_length {value : List UInt8} (h : value ≠ []) :
    (bytesField tag value).length = 1 + (encodeVarint value.length).length + value.length := by
  rw [bytesField, if_neg h, List.length_cons, List.length_append]
  omega

theorem payload_le_encodeWire (wire : WireFrame) :
    wire.payload.length ≤ (encodeWire wire).length := by
  have hfield : wire.payload.length ≤ (bytesField 0x1a wire.payload).length := by
    by_cases hempty : wire.payload = []
    · rw [hempty]
      exact Nat.zero_le _
    · rw [bytesField_length hempty]
      omega
  simp only [encodeWire, List.length_append]
  omega

/-- A compressed message is not longer than the plain one. -/
theorem encodeWire_compressed_le (frame : DecodedFrame) {compressed : List UInt8}
    (h : compressed.length + 64 < frame.payload.length) :
    (encodeWire { frame.wire with payload := compressed, payloadEncoding := Proto.zlib }).length ≤
      (encodeWire frame.wire).length := by
  have hpayload : frame.payload ≠ [] := by
    intro hempty
    rw [hempty] at h
    cases h
  have hencoding : (numberField 0x30 Proto.zlib).length = 2 := by
    rw [numberField, if_neg (by decide), encodeVarint, if_pos (by decide)]
    rfl
  have hplain : (numberField 0x30 frame.wire.payloadEncoding).length = 0 := rfl
  have hfield : (bytesField 0x1a compressed).length + 2 ≤
      (bytesField 0x1a frame.wire.payload).length := by
    rw [show frame.wire.payload = frame.payload from rfl, bytesField_length hpayload]
    by_cases hempty : compressed = []
    · rw [hempty, bytesField, if_pos rfl, List.length_nil]
      omega
    · rw [bytesField_length hempty]
      have hshorter : compressed.length ≤ frame.payload.length := by omega
      have hmono := encodeVarint_length_mono hshorter
      omega
  simp only [encodeWire, List.length_append]
  omega

/-! ## Compressed frames come back -/

/-- The libraries with the loop around zlib. -/
def zlibCodec {σ : Type} (wireFrame : List UInt8 → Except String WireFrame)
    (encodedLen : WireFrame → Nat) (zlib : StreamDecoder σ UInt8 UInt8) : Codec where
  wireFrame := wireFrame
  encodedLen := encodedLen
  inflate := inflatePayload zlib

section Transparent

variable {σ : Type} {zlib : StreamDecoder σ UInt8 UInt8}
  {wireFrame : List UInt8 → Except String WireFrame} {encodedLen : WireFrame → Nat}
  {deflate : List UInt8 → Option (List UInt8)} {frame : DecodedFrame}

theorem compressFrame_body (hdeflate : ∀ payload, ∃ stream, deflate payload = some stream ∧
      Content zlib stream payload) (hlimit : (encodeWire frame.wire).length ≤ maxFrameBytes) :
    ∃ body, compressFrame deflate frame = .ok (framed body) ∧
      (body = encodeWire frame.wire ∨ ∃ stream, Content zlib stream frame.payload ∧
        frame.kind.isTerminalSurface = true ∧
        stream.length + 64 < frame.payload.length ∧ body = encodeWire
          { frame.wire with payload := stream, payloadEncoding := Proto.zlib }) := by
  have hplain : ∀ {payload : List UInt8} {encoding : Nat},
      compressedPayload deflate frame = .ok (payload, encoding) →
      (encodeWire { frame.wire with payload, payloadEncoding := encoding }).length ≤
        maxFrameBytes →
      compressFrame deflate frame = .ok (framed (encodeWire
        { frame.wire with payload, payloadEncoding := encoding })) := by
    intro payload encoding hpayload hfits
    rw [compressFrame, hpayload]
    exact if_neg (Nat.not_lt.2 hfits)
  by_cases hsurface : frame.kind.isTerminalSurface = true ∧
      frame.payload.length ≥ minCompressBytes
  · obtain ⟨stream, hstream, hcontent⟩ := hdeflate frame.payload
    by_cases hgain : stream.length + 64 < frame.payload.length
    · have hpayload : compressedPayload deflate frame = .ok (stream, Proto.zlib) := by
        rw [compressedPayload, if_pos hsurface, hstream]
        exact if_pos hgain
      have hle := encodeWire_compressed_le frame hgain
      exact ⟨_, hplain hpayload (hle.trans hlimit), .inr ⟨stream, hcontent, hsurface.1, hgain, rfl⟩⟩
    · have hpayload : compressedPayload deflate frame = .ok (frame.payload, 0) := by
        rw [compressedPayload, if_pos hsurface, hstream]
        exact if_neg hgain
      exact ⟨_, hplain hpayload hlimit, .inl rfl⟩
  · have hpayload : compressedPayload deflate frame = .ok (frame.payload, 0) := by
      rw [compressedPayload, if_neg hsurface]
    exact ⟨_, hplain hpayload hlimit, .inl rfl⟩

theorem decodeWireFrame_compressed (hzlib : Lawful zlib)
    (hwire : ∀ wire : WireFrame, wire.InRange → wireFrame (encodeWire wire) = .ok wire)
    (hlen : ∀ wire, encodedLen wire = (encodeWire wire).length) (hrange : frame.wire.InRange)
    {maximum : Nat} (hmaximum : (encodeWire frame.wire).length ≤ maximum) {stream : List UInt8}
    (hcontent : Content zlib stream frame.payload)
    (hsurface : frame.kind.isTerminalSurface = true)
    (hgain : stream.length + 64 < frame.payload.length) :
    decodeWireFrame (zlibCodec wireFrame encodedLen zlib) (encodeWire
      { frame.wire with payload := stream, payloadEncoding := Proto.zlib }) maximum =
      .ok frame := by
  have hrange' : WireFrame.InRange
      { frame.wire with payload := stream, payloadEncoding := Proto.zlib } :=
    { hrange with
      payload := by
        have := hrange.payload
        dsimp only [DecodedFrame.wire] at this ⊢
        omega
      payloadEncoding := (by decide : Proto.zlib < 2 ^ 32) }
  have hinflate : inflatePayload zlib stream maximum = .ok frame.payload :=
    (inflatePayload_ok hzlib).2 ⟨hcontent, (payload_le_encodeWire frame.wire).trans hmaximum⟩
  have hexpanded : ¬ encodedLen frame.wire > maximum := by
    rw [hlen]
    exact Nat.not_lt.2 hmaximum
  have hpayload : decodePayload (zlibCodec wireFrame encodedLen zlib)
      { frame.wire with payload := stream, payloadEncoding := Proto.zlib } frame.kind maximum =
      .ok frame.wire := by
    unfold decodePayload zlibCodec
    rw [if_neg (show ¬ Proto.zlib = 0 by decide), if_neg (by simp [hsurface])]
    dsimp only
    rw [hinflate]
    exact if_neg hexpanded
  have hlimit : validatePayloadLimit frame.kind frame.wire.payload.length = .ok () := by
    rw [validatePayloadLimit, if_neg]
    simp [WireKind.isControl, hsurface]
  unfold decodeWireFrame
  rw [show (zlibCodec wireFrame encodedLen zlib).wireFrame = wireFrame from rfl, hwire _ hrange']
  simp only [DecodedFrame.wire] at hpayload hlimit ⊢
  simp only [ne_eq, not_true_eq_false, if_false, WireKind.tryFrom_toNat, hpayload, hlimit]

theorem compressFrames_decoded (hzlib : Lawful zlib)
    (hdeflate : ∀ payload, ∃ stream, deflate payload = some stream ∧ Content zlib stream payload)
    (hwire : ∀ wire : WireFrame, wire.InRange → wireFrame (encodeWire wire) = .ok wire)
    (hlen : ∀ wire, encodedLen wire = (encodeWire wire).length) {d : FrameDecoder}
    (hd : d.Clean) (hmax : d.maximumBodyBytes < 2 ^ 64) {frames : List DecodedFrame}
    {pieces : List (List UInt8)}
    (henc : List.Forall₂ (fun frame bytes => encodePayload encodeWire frame.kind frame.requestId
      frame.deadlineMs frame.payload = .ok bytes) frames pieces)
    (hframes : ∀ frame ∈ frames, frame.wire.InRange ∧
      (encodeWire frame.wire).length ≤ d.maximumBodyBytes) :
    ∃ output, compressFrames deflate frames = .ok output ∧
      d.feedBytes (zlibCodec wireFrame encodedLen zlib) output = .ok (frames, d) := by
  induction henc with
  | nil => exact ⟨[], rfl, rfl⟩
  | @cons frame bytes frames pieces hbytes _ ih =>
    obtain ⟨hrange, hfits⟩ := hframes frame List.mem_cons_self
    obtain ⟨more, hmore, hfeed⟩ := ih fun frame hframe =>
      hframes frame (List.mem_cons_of_mem _ hframe)
    obtain ⟨-, hplain⟩ := encodePayload_ok (zlibCodec wireFrame encodedLen zlib)
      d.maximumBodyBytes hbytes (hwire _ hrange)
    have hlimit : (encodeWire frame.wire).length ≤ maxFrameBytes := by
      unfold encodePayload at hbytes
      split at hbytes
      · cases hbytes
      dsimp only at hbytes
      split at hbytes
      · cases hbytes
      · rename_i hle
        exact Nat.not_lt.1 hle
    obtain ⟨body, hbody, hform⟩ := compressFrame_body hdeflate hlimit
    have hdecode : body.length ≤ d.maximumBodyBytes ∧
        decodeWireFrame (zlibCodec wireFrame encodedLen zlib) body d.maximumBodyBytes =
          .ok frame := by
      rcases hform with rfl | ⟨stream, hcontent, hsurface, hgain, rfl⟩
      · exact ⟨hfits, hplain⟩
      · exact ⟨(encodeWire_compressed_le frame hgain).trans hfits,
          decodeWireFrame_compressed hzlib hwire hlen hrange hfits hcontent hsurface hgain⟩
    refine ⟨framed body ++ more, ?_, ?_⟩
    · rw [compressFrames, hbody, hmore]
    · rw [FrameDecoder.feedBytes_framed hd hmax hdecode.1, hdecode.2, hfeed]
      rfl

end Transparent

/-- Frames compressed and decoded are the frames decoded without compression, in whatever pieces
the bytes arrive; and the loop that expands a payload ends, keeps within the bound and accepts
nothing but one complete stream that fits. -/
theorem compression_transparent {σ : Type} (zlib : StreamDecoder σ UInt8 UInt8)
    (wireFrame : List UInt8 → Except String WireFrame) (encodedLen : WireFrame → Nat)
    (deflate : List UInt8 → Option (List UInt8)) (hzlib : Lawful zlib)
    (hdeflate : ∀ payload, ∃ stream, deflate payload = some stream ∧ Content zlib stream payload)
    (hwire : ∀ wire : WireFrame, wire.InRange → wireFrame (encodeWire wire) = .ok wire)
    (hlen : ∀ wire, encodedLen wire = (encodeWire wire).length) :
    let codec := zlibCodec wireFrame encodedLen zlib
    (∀ (maximum : Nat) (frames : List DecodedFrame) (pieces : List (List UInt8)),
      let d := FrameDecoder.withMaximumBodyBytes maximum
      List.Forall₂ (fun frame bytes => encodePayload encodeWire frame.kind frame.requestId
        frame.deadlineMs frame.payload = .ok bytes) frames pieces →
      (∀ frame ∈ frames, frame.wire.InRange ∧
        (encodeWire frame.wire).length ≤ d.maximumBodyBytes) →
      ∃ output, compressTerminalFrames codec deflate pieces.flatten = .ok output ∧
        ∀ chunks : List (List UInt8), chunks.flatten = output ∨ chunks.flatten = pieces.flatten →
          FrameDecoder.feedAll codec d chunks = (frames, .ok d)) ∧
    ∀ (payload : List UInt8) (maximum : Nat),
      (∀ passes ≥ payload.length + maximum + 1,
        inflateLoop zlib payload maximum passes ⟨zlib.start, 0, []⟩ =
          some (codec.inflate payload maximum)) ∧
      (∀ s, Relation.ReflTransGen (NextPass zlib payload maximum) ⟨zlib.start, 0, []⟩ s →
        s.output.length ≤ maximum) ∧
      (∀ content, codec.inflate payload maximum = .ok content →
        Content zlib payload content ∧ content.length ≤ maximum) ∧
      (∀ stream content, Content zlib stream content →
        ((∃ k < stream.length, payload = stream.take k) ∨
          (∃ more, more ≠ [] ∧ payload = stream ++ more) ∨
          payload = stream ∧ content.length > maximum) →
        ∃ e, codec.inflate payload maximum = .error e) := by
  intro codec
  refine ⟨fun maximum frames pieces henc hframes => ?_, fun payload maximum =>
    ⟨inflatePayload_some hzlib payload maximum, fun s hs => ?_,
      fun content => (inflatePayload_ok hzlib).1, fun stream content hcontent hbad => ?_⟩⟩
  · set d := FrameDecoder.withMaximumBodyBytes maximum with hd
    have hclean : d.Clean := FrameDecoder.clean_withMaximumBodyBytes maximum
    have hmax : d.maximumBodyBytes < 2 ^ 64 := FrameDecoder.maximumBodyBytes_lt maximum
    have hshort : d.Short := FrameDecoder.short_withMaximumBodyBytes maximum
    have hlib : ∀ frame ∈ frames, codec.wireFrame (encodeWire frame.wire) = .ok frame.wire ∧
        (encodeWire frame.wire).length ≤ d.maximumBodyBytes := fun frame hframe =>
      ⟨hwire _ (hframes frame hframe).1, (hframes frame hframe).2⟩
    obtain ⟨output, houtput, hfeed⟩ := compressFrames_decoded hzlib hdeflate hwire hlen hclean hmax
      henc hframes
    -- the sender decodes with the limit of every frame
    have hsender : ({} : FrameDecoder).feed codec pieces.flatten = .ok (frames, {}) := by
      have hle : d.maximumBodyBytes ≤ maxFrameBytes := min_le_right _ _
      rw [FrameDecoder.feed_bytes (fun _ h => by cases h)]
      exact FrameDecoder.feedBytes_encoded ⟨rfl, rfl, rfl⟩ (by decide) henc fun frame hframe =>
        ⟨(hlib frame hframe).1, (hlib frame hframe).2.trans hle⟩
    refine ⟨output, ?_, fun chunks hchunks => ?_⟩
    · rw [compressTerminalFrames, hsender]
      exact houtput
    · have hall := FrameDecoder.feedAll_eq codec hshort chunks
      rcases hchunks with hchunks | hchunks
      · rwa [hchunks, hfeed] at hall
      · rwa [hchunks, FrameDecoder.feedBytes_encoded hclean hmax henc hlib] at hall
  · have hgoing : Going zlib payload maximum s := by
      induction hs with
      | refl => exact Going.start ..
      | tail _ hpass ih => exact ih.pass hpass
    exact hgoing.bounded
  · cases hresult : codec.inflate payload maximum with
    | error e => exact ⟨e, rfl⟩
    | ok content' =>
      obtain ⟨haccepted, hfits⟩ := (inflatePayload_ok hzlib).1 hresult
      rcases hbad with ⟨k, hk, rfl⟩ | ⟨more, hmore, rfl⟩ | ⟨rfl, hlong⟩
      · exact absurd haccepted (hcontent.truncated hzlib hk)
      · exact absurd haccepted (hcontent.extended hzlib hmore)
      · rw [hcontent.unique hzlib haccepted] at hfits
        omega

/-! ## Libraries that satisfy the assumptions -/

def splitVarint : List UInt8 → List UInt8 × List UInt8
  | [] => ([], [])
  | byte :: bytes =>
    if byte.toNat < 128 then ([byte], bytes)
    else (byte :: (splitVarint bytes).1, (splitVarint bytes).2)

theorem splitVarint_append {bytes : List UInt8} (h : IsVarint bytes) (rest : List UInt8) :
    splitVarint (bytes ++ rest) = (bytes, rest) := by
  induction h with
  | last h => exact if_pos h
  | more h _ ih =>
    rw [List.cons_append, splitVarint, if_neg (Nat.not_lt.2 h), ih]

def readVarint (bytes : List UInt8) : Except String (Nat × List UInt8) :=
  match decodeVarint (splitVarint bytes).1 with
  | .ok value => .ok (value, (splitVarint bytes).2)
  | .error _ => .error "invalid varint"

theorem readVarint_append (h : value < 2 ^ 64) (rest : List UInt8) :
    readVarint (encodeVarint value ++ rest) = .ok (value, rest) := by
  rw [readVarint, splitVarint_append (encodeVarint_isVarint value), decodeVarint_encode h]

def readNumber (tag : UInt8) (bytes : List UInt8) : Except String (Nat × List UInt8) :=
  if bytes.head? = some tag then readVarint bytes.tail else .ok (0, bytes)

def readBytes (tag : UInt8) (bytes : List UInt8) : Except String (List UInt8 × List UInt8) :=
  if bytes.head? = some tag then do
    let (length, rest) ← readVarint bytes.tail
    return (rest.take length, rest.drop length)
  else .ok ([], bytes)

/-- The messages `encodeWire` writes. -/
def readWire (bytes : List UInt8) : Except String WireFrame := do
  let (wireMajor, bytes) ← readNumber 0x08 bytes
  let (kind, bytes) ← readNumber 0x10 bytes
  let (payload, bytes) ← readBytes 0x1a bytes
  let (requestId, bytes) ← readNumber 0x20 bytes
  let (deadlineMs, bytes) ← readNumber 0x28 bytes
  let (payloadEncoding, _) ← readNumber 0x30 bytes
  return ⟨wireMajor, kind, payload, requestId, deadlineMs, payloadEncoding⟩

def BeginsWith (tags : List UInt8) (bytes : List UInt8) : Prop :=
  ∀ tag, bytes.head? = some tag → tag ∈ tags

theorem beginsWith_nil (tags : List UInt8) : BeginsWith tags [] := nofun

theorem BeginsWith.number (h : BeginsWith tags rest) (tag : UInt8) (value : Nat) :
    BeginsWith (tag :: tags) (numberField tag value ++ rest) := by
  intro tag' htag
  unfold numberField at htag
  split at htag
  · exact List.mem_cons_of_mem _ (h tag' htag)
  · exact List.mem_cons.2 (.inl (Option.some.inj htag).symm)

theorem BeginsWith.bytes (h : BeginsWith tags rest) (tag : UInt8) (value : List UInt8) :
    BeginsWith (tag :: tags) (bytesField tag value ++ rest) := by
  intro tag' htag
  unfold bytesField at htag
  split at htag
  · exact List.mem_cons_of_mem _ (h tag' htag)
  · exact List.mem_cons.2 (.inl (Option.some.inj htag).symm)

theorem readNumber_field (h : BeginsWith tags rest) (htag : tag ∉ tags) (hvalue : value < 2 ^ 64) :
    readNumber tag (numberField tag value ++ rest) = .ok (value, rest) := by
  unfold numberField readNumber
  split
  · rename_i hzero
    rw [List.nil_append, if_neg fun hhead => htag (h tag hhead), hzero]
  · exact (if_pos rfl).trans (readVarint_append hvalue rest)

theorem readBytes_field (h : BeginsWith tags rest) (htag : tag ∉ tags) {value : List UInt8}
    (hvalue : value.length < 2 ^ 64) :
    readBytes tag (bytesField tag value ++ rest) = .ok (value, rest) := by
  unfold bytesField readBytes
  split
  · rename_i hempty
    rw [List.nil_append, if_neg fun hhead => htag (h tag hhead), hempty]
  · rw [List.cons_append, List.tail_cons, List.append_assoc, readVarint_append hvalue]
    simp [bind, Except.bind, pure, Except.pure]

theorem readWire_encodeWire (wire : WireFrame) (h : wire.InRange) :
    readWire (encodeWire wire) = .ok wire := by
  have h₆ := (beginsWith_nil []).number 0x30 wire.payloadEncoding
  have h₅ := h₆.number 0x28 wire.deadlineMs
  have h₄ := h₅.number 0x20 wire.requestId
  have h₃ := h₄.bytes 0x1a wire.payload
  have h₂ := h₃.number 0x10 wire.kind
  rw [List.append_nil] at h₆ h₅ h₄ h₃ h₂
  have hlast : readNumber 0x30 (numberField 0x30 wire.payloadEncoding) =
      .ok (wire.payloadEncoding, []) := by
    have hfield := readNumber_field (beginsWith_nil []) (by decide : (0x30 : UInt8) ∉ [])
      (h.payloadEncoding.trans (by decide))
    rwa [List.append_nil] at hfield
  unfold readWire encodeWire
  simp only [List.append_assoc]
  rw [readNumber_field h₂ (by decide) (h.wireMajor.trans (by decide))]
  simp only [bind, Except.bind]
  rw [readNumber_field h₃ (by decide) (h.kind.trans (by decide))]
  simp only
  rw [readBytes_field h₄ (by decide) h.payload]
  simp only
  rw [readNumber_field h₅ (by decide) h.requestId]
  simp only
  rw [readNumber_field h₆ (by decide) (h.deadlineMs.trans (by decide))]
  simp only [hlast]
  rfl

/-- Streams of runs: `1, n, b` stands for `n` times `b`, and `0` ends the stream. The state is the
rest of the last run. -/
def runLength : StreamDecoder (Nat × UInt8) UInt8 UInt8 where
  start := (0, 0)
  call s input room :=
    if s.1 ≠ 0 then
      some ⟨(s.1 - min s.1 room, s.2), false, 0, List.replicate (min s.1 room) s.2⟩
    else
      match input with
      | 0 :: _ => some ⟨s, true, 1, []⟩
      | 1 :: n :: b :: _ => some ⟨(n.toNat, b), false, 3, []⟩
      | [] | [1] | [1, _] => some ⟨s, false, 0, []⟩
      | _ => none

def runs : List UInt8 → Option (List UInt8)
  | [0] => some []
  | 1 :: n :: b :: rest => (runs rest).map (List.replicate n.toNat b ++ ·)
  | _ => none

def deflateRuns (payload : List UInt8) : List UInt8 :=
  payload.foldr (fun byte stream =>
    match stream with
    | 1 :: n :: b :: rest => if b = byte ∧ n.toNat < 255 then 1 :: (n + 1) :: b :: rest
      else 1 :: 1 :: byte :: stream
    | _ => 1 :: 1 :: byte :: stream) [0]

namespace RunLength

variable {s : Nat × UInt8} {input : List UInt8} {room : Nat} {c : DecoderCall (Nat × UInt8) UInt8}

theorem call_cases (h : runLength.call s input room = some c) :
    s.1 ≠ 0 ∧ c = ⟨(s.1 - min s.1 room, s.2), false, 0, List.replicate (min s.1 room) s.2⟩ ∨
      s.1 = 0 ∧ (∃ rest, input = 0 :: rest ∧ c = ⟨s, true, 1, []⟩) ∨
      s.1 = 0 ∧ (∃ n b rest, input = 1 :: n :: b :: rest ∧ c = ⟨(n.toNat, b), false, 3, []⟩) ∨
      s.1 = 0 ∧ c = ⟨s, false, 0, []⟩ := by
  unfold runLength at h
  dsimp only at h
  split at h
  · rename_i hrun
    exact .inl ⟨hrun, (Option.some.inj h).symm⟩
  rename_i hrun
  replace hrun := not_not.1 hrun
  split at h
  · exact .inr (.inl ⟨hrun, _, rfl, (Option.some.inj h).symm⟩)
  · exact .inr (.inr (.inl ⟨hrun, _, _, _, rfl, (Option.some.inj h).symm⟩))
  · exact .inr (.inr (.inr ⟨hrun, (Option.some.inj h).symm⟩))
  · exact .inr (.inr (.inr ⟨hrun, (Option.some.inj h).symm⟩))
  · exact .inr (.inr (.inr ⟨hrun, (Option.some.inj h).symm⟩))
  · cases h

variable {offer output stream content : List UInt8} {consumed : Nat}

/-- What has been read stands for what has been written and the rest of the run. -/
theorem reached (h : Reached runLength offer consumed output s) (rest : List UInt8) :
    runs (offer.take consumed ++ rest) =
      (runs rest).map (output ++ List.replicate s.1 s.2 ++ ·) := by
  induction h generalizing rest with
  | start => simp [runLength]
  | @call consumed room output s c _ _ hcall hgoing ih =>
    rcases call_cases hcall with ⟨-, rfl⟩ | ⟨-, _, -, rfl⟩ | ⟨hrun, n, b, more, hinput, rfl⟩ |
      ⟨hrun, rfl⟩
    · have hsplit : List.replicate (min s.1 room) s.2 ++
          List.replicate (s.1 - min s.1 room) s.2 = List.replicate s.1 s.2 := by
        rw [List.replicate_append_replicate]
        congr 1
        omega
      rw [Nat.add_zero, ih]
      simp only [List.append_assoc, ← hsplit]
    · cases hgoing
    · have htake : offer.take (consumed + 3) = offer.take consumed ++ [1, n, b] := by
        rw [List.take_add, hinput]
        rfl
      rw [htake, List.append_assoc, ih, hrun]
      change (runs (1 :: n :: b :: rest)).map _ = _
      rw [runs]
      simp [Option.map_map, Function.comp_def]
    · rw [Nat.add_zero, ih, List.append_nil]

theorem runs_extended {more : List UInt8} (h : runs stream = some content) (hmore : more ≠ []) :
    runs (stream ++ more) = none := by
  induction stream using runs.induct generalizing content with
  | case1 =>
    cases more with
    | nil => exact absurd rfl hmore
    | cons b more => rfl
  | case2 n b rest ih =>
    rw [runs] at h
    obtain ⟨content', hrest, -⟩ := Option.map_eq_some_iff.1 h
    change (runs (rest ++ more)).map _ = none
    rw [ih hrest, Option.map_none]
  | case3 stream hend hrun =>
    rw [runs] at h
    · cases h
    · exact hend
    · exact hrun

theorem content_runs (h : Content runLength stream content) :
    runs stream = some content := by
  obtain ⟨consumed, room, output, s, c, hs, -, hcall, hended, hlength, rfl⟩ := h
  rcases call_cases hcall with ⟨-, rfl⟩ | ⟨hrun, rest, hinput, rfl⟩ | ⟨-, n, b, more, -, rfl⟩ |
    ⟨-, rfl⟩
  · cases hended
  · have hnil : rest = [] := by
      have hcount := congrArg List.length hinput
      rw [List.length_drop, List.length_cons] at hcount
      dsimp only at hlength
      exact List.length_eq_zero_iff.1 (by omega)
    have hstream := reached hs [0]
    rw [show [(0 : UInt8)] = stream.drop consumed by rw [hinput, hnil], List.take_append_drop,
      hinput, hnil, hrun] at hstream
    simpa [runs] using hstream
  · cases hended
  · cases hended

theorem within (hruns : runs stream = some content) (hoffer : offer <+: stream ∨ stream <+: offer)
    (hs : Reached runLength offer consumed output s) (hle : consumed ≤ offer.length) :
    ∃ rest, stream = offer.take consumed ++ rest ∧
      (offer.drop consumed <+: rest ∨ rest <+: offer.drop consumed ∧ stream <+: offer) := by
  rcases hoffer with ⟨more, rfl⟩ | ⟨more, rfl⟩
  · refine ⟨offer.drop consumed ++ more, ?_, .inl (List.prefix_append _ _)⟩
    rw [← List.append_assoc, List.take_append_drop]
  · rcases Nat.lt_or_ge stream.length consumed with hpast | hin
    · -- the decoder does not read past the end of the stream
      have hend := reached hs [0]
      rw [List.take_append, List.take_of_length_le hpast.le, List.append_assoc,
        runs_extended hruns (by simp)] at hend
      simp [runs] at hend
    · refine ⟨stream.drop consumed, ?_, .inr ⟨⟨more, ?_⟩, List.prefix_append _ _⟩⟩
      · rw [List.take_append_of_le_length hin, List.take_append_drop]
      · rw [List.drop_append_of_le_length hin]

theorem read_le (s : Nat × UInt8) (input : List UInt8) (room : Nat)
    (c : DecoderCall (Nat × UInt8) UInt8) (h : runLength.call s input room = some c) :
    c.read ≤ input.length := by
  rcases call_cases h with ⟨-, rfl⟩ | ⟨-, rest, rfl, rfl⟩ | ⟨-, n, b, rest, rfl, rfl⟩ |
    ⟨-, rfl⟩ <;> simp

/-- A call between two runs: the end, the next run, or not enough to tell. -/
theorem call_between {rest more : List UInt8} (hrun : s.1 = 0) (hruns : runs rest = some more)
    (hinput : input <+: rest ∨ rest <+: input) (room : Nat) :
    ∃ c, runLength.call s input room = some c ∧
      (c = ⟨s, true, 1, []⟩ ∧ rest = [0] ∧ more = [] ∨
        c = ⟨s, false, 0, []⟩ ∧ input.length < rest.length ∨
        ∃ n b rest', c = ⟨(n.toNat, b), false, 3, []⟩ ∧ rest = 1 :: n :: b :: rest') := by
  have hcall : ∀ c, (match input with
      | 0 :: _ => some (⟨s, true, 1, []⟩ : DecoderCall (Nat × UInt8) UInt8)
      | 1 :: n :: b :: _ => some ⟨(n.toNat, b), false, 3, []⟩
      | [] | [1] | [1, _] => some ⟨s, false, 0, []⟩
      | _ => none) = some c → runLength.call s input room = some c := fun c h =>
    (if_neg (not_not.2 hrun)).trans h
  unfold runs at hruns
  split at hruns
  · cases hruns
    rcases hinput with ⟨tail, htail⟩ | ⟨tail, rfl⟩
    · cases input with
      | nil => exact ⟨_, hcall _ rfl, .inr (.inl ⟨rfl, Nat.zero_lt_one⟩)⟩
      | cons byte input =>
        obtain rfl : byte = 0 := (List.cons.inj htail).1
        exact ⟨_, hcall _ rfl, .inl ⟨rfl, rfl, rfl⟩⟩
    · exact ⟨_, hcall _ rfl, .inl ⟨rfl, rfl, rfl⟩⟩
  · rename_i n b rest
    rcases hinput with ⟨tail, htail⟩ | ⟨tail, rfl⟩
    · match input, htail with
      | [], _ => exact ⟨_, hcall _ rfl, .inr (.inl ⟨rfl, by simp⟩)⟩
      | [byte], htail =>
        obtain rfl : byte = 1 := (List.cons.inj htail).1
        exact ⟨_, hcall _ rfl, .inr (.inl ⟨rfl, by simp⟩)⟩
      | [byte, _], htail =>
        obtain rfl : byte = 1 := (List.cons.inj htail).1
        exact ⟨_, hcall _ rfl, .inr (.inl ⟨rfl, by simp⟩)⟩
      | byte :: n' :: b' :: input, htail =>
        simp only [List.cons_append, List.cons.injEq] at htail
        obtain ⟨rfl, rfl, rfl, -⟩ := htail
        exact ⟨_, hcall _ rfl, .inr (.inr ⟨_, _, _, rfl, rfl⟩)⟩
    · exact ⟨_, hcall _ rfl, .inr (.inr ⟨_, _, _, rfl, rfl⟩)⟩
  · cases hruns

theorem lawful : Lawful runLength where
  read_le := read_le
  decodes := by
    intro stream content hcontent offer hoffer consumed output s hs room hroom
    have hruns := content_runs hcontent
    have hle := hs.le read_le
    obtain ⟨rest, rfl, hrest⟩ := within hruns hoffer hs hle
    rw [reached hs] at hruns
    obtain ⟨more, hmore, rfl⟩ := Option.map_eq_some_iff.1 hruns
    have hlength : (offer.take consumed ++ rest).length = consumed + rest.length := by
      rw [List.length_append, List.length_take, Nat.min_eq_left hle]
    by_cases hrun : s.1 = 0
    · have hprefix : output ++ [] <+: output ++ List.replicate s.1 s.2 ++ more := by
        rw [List.append_nil, List.append_assoc]
        exact List.prefix_append _ _
      obtain ⟨c, hcall, hc⟩ := call_between hrun hmore (hrest.imp_right And.left) room
      refine ⟨c, hcall, ?_⟩
      rcases hc with ⟨rfl, rfl, rfl⟩ | ⟨rfl, hshort⟩ | ⟨n, b, rest', rfl, rfl⟩
      · refine ⟨hlength.ge, hprefix, fun _ => ⟨hlength.symm, ?_⟩, nofun⟩
        simp [hrun]
      · refine ⟨hlength ▸ Nat.le_add_right _ _, hprefix, nofun, fun _ hall => ?_⟩
        have hlong := hall.length_le
        rw [hlength] at hlong
        rw [List.length_drop] at hshort
        omega
      · refine ⟨?_, hprefix, nofun, fun _ _ => .inl (Nat.zero_lt_succ 2)⟩
        rw [hlength]
        simp
    · refine ⟨_, if_pos hrun, ⟨?_, ?_, nofun, fun _ _ => .inr ?_⟩⟩
      · rw [hlength]
        exact Nat.le_add_right _ _
      · refine ⟨List.replicate (s.1 - min s.1 room) s.2 ++ more, ?_⟩
        simp only [List.append_assoc]
        rw [← List.append_assoc (List.replicate _ _), List.replicate_append_replicate]
        congr 3
        omega
      · rw [Ne, List.replicate_eq_nil_iff]
        omega

theorem flushed (h : Reached runLength offer consumed output s) :
    Reached runLength offer consumed (output ++ List.replicate s.1 s.2) (0, s.2) := by
  by_cases hrun : s.1 = 0
  · have hs : s = (0, s.2) := Prod.ext hrun rfl
    rw [hrun, List.replicate_zero, List.append_nil, ← hs]
    exact h
  · have hcall := h.call (Nat.pos_of_ne_zero hrun) (if_pos hrun) rfl
    simpa using hcall

theorem content_of_runs (h : runs stream = some content) :
    Content runLength stream content := by
  have hgoing : ∀ rest more : List UInt8, runs rest = some more → ∀ consumed output s,
      stream.drop consumed = rest → Reached runLength stream consumed output s →
      Content runLength stream (output ++ List.replicate s.1 s.2 ++ more) := by
    intro rest
    induction rest using runs.induct with
    | case1 =>
      intro more hmore consumed output s hrest hs
      cases hmore
      refine ⟨consumed, 1, _, (0, s.2), ⟨(0, s.2), true, 1, []⟩, flushed hs, Nat.one_pos, ?_, rfl,
        ?_, by simp⟩
      · rw [hrest]
        rfl
      · have hlength := congrArg List.length hrest
        rw [List.length_drop, List.length_singleton] at hlength
        dsimp only
        omega
    | case2 n b rest ih =>
      intro more hmore consumed output s hrest hs
      rw [runs] at hmore
      obtain ⟨more', hmore', rfl⟩ := Option.map_eq_some_iff.1 hmore
      have hcall : runLength.call (0, s.2) (stream.drop consumed) 1 =
          some ⟨(n.toNat, b), false, 3, []⟩ := by
        rw [hrest]
        rfl
      have hnext := (flushed hs).call Nat.one_pos hcall rfl
      have hdrop : stream.drop (consumed + 3) = rest := by
        rw [← List.drop_drop, hrest]
        rfl
      have hdone := ih more' hmore' _ _ _ hdrop hnext
      simpa using hdone
    | case3 rest hend hrun =>
      intro more hmore
      rw [runs] at hmore
      · cases hmore
      · exact hend
      · exact hrun
  exact hgoing stream content h 0 [] _ rfl .start

theorem runs_deflateRuns (payload : List UInt8) : runs (deflateRuns payload) = some payload := by
  induction payload with
  | nil => rfl
  | cons byte payload ih =>
    have hnew : runs (1 :: 1 :: byte :: deflateRuns payload) = some (byte :: payload) := by
      rw [runs, ih]
      rfl
    change runs (match deflateRuns payload with
      | 1 :: n :: b :: rest => if b = byte ∧ n.toNat < 255 then 1 :: (n + 1) :: b :: rest
        else 1 :: 1 :: byte :: deflateRuns payload
      | _ => 1 :: 1 :: byte :: deflateRuns payload) = _
    split
    · rename_i n b rest hstream
      split
      · rename_i hjoin
        obtain ⟨rfl, hn⟩ := hjoin
        rw [hstream, runs] at ih
        obtain ⟨more, hmore, rfl⟩ := Option.map_eq_some_iff.1 ih
        have hsucc : (n + 1).toNat = n.toNat + 1 := by
          rw [UInt8.toNat_add]
          exact Nat.mod_eq_of_lt (by simpa using (by omega : n.toNat + 1 < 256))
        rw [runs, hmore, hsucc]
        rfl
      · exact hnew
    · exact hnew

end RunLength

theorem numberField_length_le (tag : UInt8) (h : value < 2 ^ 64) :
    (numberField tag value).length ≤ 11 := by
  unfold numberField
  split
  · exact Nat.zero_le _
  · have hlength := encodeVarint_length (k := 10) (by decide)
      (show value < 128 ^ 10 from h.trans (by decide))
    rw [List.length_cons]
    omega

theorem encodeWire_length_le {wire : WireFrame} (h : wire.InRange) :
    (encodeWire wire).length ≤ wire.payload.length + 66 := by
  have hpayload : (bytesField 0x1a wire.payload).length ≤ wire.payload.length + 11 := by
    unfold bytesField
    split
    · exact Nat.zero_le _
    · have hlength := encodeVarint_length (k := 10) (by decide)
        (show wire.payload.length < 128 ^ 10 from h.payload.trans (by decide))
      rw [List.length_cons, List.length_append]
      omega
  have h₁ := numberField_length_le 0x08 (h.wireMajor.trans (by decide))
  have h₂ := numberField_length_le 0x10 (h.kind.trans (by decide))
  have h₄ := numberField_length_le 0x20 h.requestId
  have h₅ := numberField_length_le 0x28 (h.deadlineMs.trans (by decide))
  have h₆ := numberField_length_le 0x30 (h.payloadEncoding.trans (by decide))
  simp only [encodeWire, List.length_append]
  omega

/-- A snapshot of 2048 equal bytes, which is compressed, and a status request, which is not. -/
theorem compression_transparent_runs :
    let codec := zlibCodec readWire (fun wire => (encodeWire wire).length) runLength
    let snapshot : DecodedFrame := ⟨.terminalSemanticSnapshot, 17, 5000, List.replicate 2048 7⟩
    let request : DecodedFrame := ⟨.localStatusRequest, 18, 0, []⟩
    (deflateRuns snapshot.payload).length = 28 ∧
      ∃ output, compressTerminalFrames codec (fun payload => some (deflateRuns payload))
          (framed (encodeWire snapshot.wire) ++ framed (encodeWire request.wire)) = .ok output ∧
        FrameDecoder.feedAll codec (FrameDecoder.withMaximumBodyBytes 4096) [output] =
          ([snapshot, request], .ok (FrameDecoder.withMaximumBodyBytes 4096)) := by
  intro codec snapshot request
  refine ⟨by decide +kernel, ?_⟩
  have hlength : snapshot.payload.length = 2048 := List.length_replicate
  have hrange : ∀ frame ∈ [snapshot, request], frame.wire.InRange ∧
      (encodeWire frame.wire).length ≤ 4096 := by
    intro frame hframe
    have hframe : frame.wire.InRange ∧ frame.payload.length ≤ 2048 := by
      rcases List.mem_cons.1 hframe with rfl | hframe
      · exact ⟨⟨by decide, by decide, hlength.trans_lt (by decide), by decide, by decide,
          by decide⟩, hlength.le⟩
      · rw [List.mem_singleton.1 hframe]
        exact ⟨⟨by decide, by decide, by decide, by decide, by decide, by decide⟩, by decide⟩
    have hlength := encodeWire_length_le hframe.1
    have hpayload : frame.wire.payload.length ≤ 2048 := hframe.2
    exact ⟨hframe.1, by omega⟩
  have hencoded : ∀ frame ∈ [snapshot, request], encodePayload encodeWire frame.kind
      frame.requestId frame.deadlineMs frame.payload = .ok (framed (encodeWire frame.wire)) := by
    intro frame hframe
    have hlimit : validatePayloadLimit frame.kind frame.payload.length = .ok () := by
      rcases List.mem_cons.1 hframe with rfl | hframe
      · rfl
      · rw [List.mem_singleton.1 hframe]
        rfl
    have hfits : ¬ (encodeWire frame.wire).length > maxFrameBytes := by
      have := (hrange frame hframe).2
      simp only [maxFrameBytes]
      omega
    rw [encodePayload, hlimit]
    exact if_neg hfits
  obtain ⟨output, houtput, hfeed⟩ := (compression_transparent runLength readWire
    (fun wire => (encodeWire wire).length) (fun payload => some (deflateRuns payload))
    RunLength.lawful
    (fun payload => ⟨_, rfl, RunLength.content_of_runs (RunLength.runs_deflateRuns payload)⟩)
    readWire_encodeWire fun _ => rfl).1 4096 [snapshot, request] _
    (.cons (hencoded _ List.mem_cons_self) (.cons (hencoded _ (by simp)) .nil)) hrange
  refine ⟨output, ?_, hfeed [output] (.inl (List.flatten_singleton ..))⟩
  simpa using houtput

end Voytty.Proto
