import Voytty.Proto.Frame

/-!
# Streams of frames

The encoder's side of the stream format, and what a decoder makes of a stream
that arrives in pieces: it gives back encoded frames, its outcome does not depend
on the pieces, it holds a bounded part of one frame, it ends clean exactly at the
end of a frame, and it takes a length in its shortest form only.

A call that fails returns no frames, also not those that were complete before the
failure, so the frames returned before a failure do depend on the pieces.
-/

namespace Voytty.Proto

/-! ## Lengths -/

/-- Seven bits to a byte, lowest first; all but the last byte have the high bit. -/
def encodeVarint (value : Nat) : List UInt8 :=
  if value < 128 then [UInt8.ofNat value]
  else UInt8.ofNat (value % 128 + 128) :: encodeVarint (value / 128)
termination_by value
decreasing_by omega

inductive IsVarint : List UInt8 → Prop where
  | last {byte : UInt8} (h : byte.toNat < 128) : IsVarint [byte]
  | more {byte : UInt8} {bytes : List UInt8} (h : 128 ≤ byte.toNat) (hs : IsVarint bytes) :
      IsVarint (byte :: bytes)

theorem toNat_ofNat_byte {n : Nat} (h : n < 256) : (UInt8.ofNat n).toNat = n := by
  rw [UInt8.toNat_ofNat']
  exact Nat.mod_eq_of_lt h

theorem encodeVarint_isVarint (value : Nat) : IsVarint (encodeVarint value) := by
  induction value using Nat.strongRecOn with
  | ind value ih =>
    rw [encodeVarint]
    split
    · exact .last (by rw [toNat_ofNat_byte (by omega)]; omega)
    · exact .more (by rw [toNat_ofNat_byte (by omega)]; omega) (ih _ (by omega))

theorem encodeVarint_injective : Function.Injective encodeVarint := by
  intro value
  induction value using Nat.strongRecOn with
  | ind value ih =>
    intro other h
    rw [encodeVarint.eq_def value, encodeVarint.eq_def other] at h
    split at h <;> split at h
    · have hbyte := congrArg UInt8.toNat (List.cons.inj h).1
      rwa [toNat_ofNat_byte (by omega), toNat_ofNat_byte (by omega)] at hbyte
    · have hbyte := congrArg UInt8.toNat (List.cons.inj h).1
      rw [toNat_ofNat_byte (by omega), toNat_ofNat_byte (by omega)] at hbyte
      omega
    · have hbyte := congrArg UInt8.toNat (List.cons.inj h).1
      rw [toNat_ofNat_byte (by omega), toNat_ofNat_byte (by omega)] at hbyte
      omega
    · obtain ⟨hhead, htail⟩ := List.cons.inj h
      have hbyte := congrArg UInt8.toNat hhead
      rw [toNat_ofNat_byte (by omega), toNat_ofNat_byte (by omega)] at hbyte
      have := ih _ (by omega) htail
      omega

variable {value index total : Nat} {bytes : List UInt8}

theorem encodeVarint_length {k : Nat} (hk : 0 < k) (h : value < 128 ^ k) :
    (encodeVarint value).length ≤ k := by
  induction k generalizing value with
  | zero => omega
  | succ k ih =>
    rw [encodeVarint]
    split
    · simp
    · rename_i hbig
      rw [pow_succ] at h
      have hpos : 0 < k := by
        rcases Nat.eq_zero_or_pos k with rfl | hpos
        · omega
        · exact hpos
      have := ih hpos (show value / 128 < 128 ^ k from Nat.div_lt_of_lt_mul (by omega))
      simp only [List.length_cons]
      omega

/-- A value from its lowest digit and the rest, at the place of a byte. -/
theorem digit_split (value index : Nat) :
    value * 2 ^ (index * 7) =
      value % 128 * 2 ^ (index * 7) + value / 128 * 2 ^ ((index + 1) * 7) := by
  have hplace : 2 ^ ((index + 1) * 7) = 128 * 2 ^ (index * 7) := by
    rw [add_mul, one_mul, pow_add, mul_comm]
    rfl
  calc value * 2 ^ (index * 7) = (128 * (value / 128) + value % 128) * 2 ^ (index * 7) := by
        rw [Nat.div_add_mod]
    _ = _ := by
        rw [hplace]
        ring

theorem place_bound (h : index ≤ 8) :
    2 ^ (64 - 7 * index) = 128 * 2 ^ (64 - 7 * (index + 1)) := by
  rw [show (128 : Nat) = 2 ^ 7 from rfl, ← pow_add]
  congr 1
  omega

/-- What is encoded from the `index`th byte on is read back. -/
theorem decodeVarintFrom_encode (hindex : index ≤ 9) (h : value < 2 ^ (64 - 7 * index))
    (hzero : index = 0 ∨ value ≠ 0) :
    decodeVarintFrom index total (encodeVarint value) = .ok (total + value * 2 ^ (index * 7)) := by
  induction value using Nat.strongRecOn generalizing index total with
  | ind value ih =>
    rw [encodeVarint]
    split
    · rename_i hsmall
      have hbyte : (UInt8.ofNat value).toNat = value := toNat_ofNat_byte (by omega)
      have hnine : ¬ (index = 9 ∧ 1 < value) := by
        rintro ⟨rfl, hlt⟩
        simp at h
        omega
      have hlast : ¬ (0 < index ∧ UInt8.ofNat value = 0) := by
        rintro ⟨hpos, hb⟩
        have hv : value = 0 := by rw [← hbyte, hb]; rfl
        omega
      simp only [decodeVarintFrom, hbyte, if_neg hnine, if_pos hsmall, if_neg hlast,
        Nat.mod_eq_of_lt hsmall]
    · rename_i hbig
      have hbyte : (UInt8.ofNat (value % 128 + 128)).toNat = value % 128 + 128 :=
        toNat_ofNat_byte (by omega)
      have height : index ≤ 8 := by
        by_contra hnine
        obtain rfl : index = 9 := by omega
        simp at h
        omega
      have hpow := place_bound height
      have hrest : decodeVarintFrom (index + 1) (total + value % 128 * 2 ^ (index * 7))
          (encodeVarint (value / 128)) = .ok (total + value % 128 * 2 ^ (index * 7) +
            value / 128 * 2 ^ ((index + 1) * 7)) :=
        ih _ (by omega) (by omega) (Nat.div_lt_of_lt_mul (hpow ▸ h)) (.inr (by omega))
      simp only [decodeVarintFrom, hbyte]
      rw [if_neg (by omega), if_neg (by omega), show (value % 128 + 128) % 128 = value % 128 by omega,
        hrest, add_assoc, ← digit_split]

theorem decodeVarint_encode (h : value < 2 ^ 64) :
    decodeVarint (encodeVarint value) = .ok value := by
  rw [decodeVarint, decodeVarintFrom_encode (by omega) (by simpa using h) (.inl rfl)]
  simp

/-- A length that is read was in its shortest form. -/
theorem encode_of_decodeVarintFrom {result : Nat} (hb : IsVarint bytes) (hindex : index ≤ 9)
    (h : decodeVarintFrom index total bytes = .ok result) :
    ∃ value, bytes = encodeVarint value ∧ value < 2 ^ (64 - 7 * index) ∧
      (index = 0 ∨ value ≠ 0) ∧ result = total + value * 2 ^ (index * 7) := by
  induction hb generalizing index total with
  | @last byte hlast =>
    simp only [decodeVarintFrom, if_pos hlast] at h
    split at h
    · cases h
    rename_i hnine
    split at h
    · cases h
    rename_i hzero
    refine ⟨byte.toNat, ?_, ?_, ?_, ?_⟩
    · rw [encodeVarint, if_pos hlast, UInt8.ofNat_toNat]
    · rcases Nat.lt_or_ge index 9 with hlt | hge
      · exact hlast.trans_le (Nat.pow_le_pow_right (n := 2) (by decide)
          (show 7 ≤ 64 - 7 * index by omega))
      · obtain rfl : index = 9 := by omega
        simp only [true_and, not_lt] at hnine
        exact Nat.lt_succ_of_le hnine
    · rcases Nat.eq_zero_or_pos index with h0 | hpos
      · exact .inl h0
      · refine .inr fun hv => hzero ⟨hpos, ?_⟩
        rw [← UInt8.ofNat_toNat (x := byte), hv]
        rfl
    · rw [Nat.mod_eq_of_lt hlast] at h
      exact (Except.ok.inj h).symm
  | @more byte bytes hmore hbytes ih =>
    simp only [decodeVarintFrom] at h
    split at h
    · cases h
    rename_i hnine
    rw [if_neg (by omega)] at h
    have hbyte := byte.toNat_lt
    have height : index ≤ 8 := by omega
    obtain ⟨value, rfl, hlt, hne, rfl⟩ := ih (by omega) h
    have hpos : value ≠ 0 := hne.resolve_left (by omega)
    refine ⟨byte.toNat - 128 + 128 * value, ?_, ?_, .inr (by omega), ?_⟩
    · rw [encodeVarint.eq_def (byte.toNat - 128 + 128 * value), if_neg (by omega)]
      rw [show (byte.toNat - 128 + 128 * value) % 128 + 128 = byte.toNat by omega,
        show (byte.toNat - 128 + 128 * value) / 128 = value by omega, UInt8.ofNat_toNat]
    · rw [place_bound height]
      omega
    · rw [digit_split (byte.toNat - 128 + 128 * value),
        show (byte.toNat - 128 + 128 * value) % 128 = byte.toNat % 128 by omega,
        show (byte.toNat - 128 + 128 * value) / 128 = value by omega, add_assoc]

theorem encode_of_decodeVarint (hb : IsVarint bytes) (h : decodeVarint bytes = .ok value) :
    bytes = encodeVarint value ∧ value < 2 ^ 64 := by
  obtain ⟨found, hbytes, hlt, -, rfl⟩ := encode_of_decodeVarintFrom hb (by omega) h
  simpa using ⟨hbytes, hlt⟩

theorem decodeVarintFrom_error {e : ProtocolError}
    (h : decodeVarintFrom index total bytes = .error e) : e = .malformedVarint := by
  induction bytes generalizing index total with
  | nil => exact (Except.error.inj h).symm
  | cons byte bytes ih =>
    simp only [decodeVarintFrom] at h
    split at h
    · exact (Except.error.inj h).symm
    split at h
    · split at h
      · exact (Except.error.inj h).symm
      · cases h
    · exact ih h

/-! ## Encoding -/

def framed (body : List UInt8) : List UInt8 := encodeVarint body.length ++ body

/-- The message an uncompressed frame is sent as. -/
def DecodedFrame.wire (frame : DecodedFrame) : WireFrame where
  wireMajor := wireMajor
  kind := frame.kind.toNat
  payload := frame.payload
  requestId := frame.requestId
  deadlineMs := frame.deadlineMs
  payloadEncoding := 0

/-- A serialized payload in the stream format; `encode` is the library's `encode_to_vec`. -/
def encodePayload (encode : WireFrame → List UInt8) (kind : WireKind) (requestId deadlineMs : Nat)
    (payload : List UInt8) : Except ProtocolError (List UInt8) :=
  match validatePayloadLimit kind payload.length with
  | .error e => .error e
  | .ok () =>
    let body := encode (DecodedFrame.wire ⟨kind, requestId, deadlineMs, payload⟩)
    if body.length > maxFrameBytes then .error (.frameTooLarge body.length)
    else .ok (encodeVarint body.length ++ body)

theorem WireKind.tryFrom_toNat (kind : WireKind) : tryFrom kind.toNat = some kind := by
  cases kind <;> rfl

theorem encodePayload_ok {encode : WireFrame → List UInt8} {frame : DecodedFrame} (codec : Codec)
    (maximumBodyBytes : Nat)
    (h : encodePayload encode frame.kind frame.requestId frame.deadlineMs frame.payload = .ok bytes)
    (hcodec : codec.wireFrame (encode frame.wire) = .ok frame.wire) :
    bytes = framed (encode frame.wire) ∧
      decodeWireFrame codec (encode frame.wire) maximumBodyBytes = .ok frame := by
  unfold encodePayload at h
  cases hlimit : validatePayloadLimit frame.kind frame.payload.length with
  | error e =>
    rw [hlimit] at h
    cases h
  | ok _ =>
    rw [hlimit] at h
    dsimp only at h
    split at h
    · cases h
    · refine ⟨(Except.ok.inj h).symm, ?_⟩
      rw [decodeWireFrame, hcodec]
      simp only [DecodedFrame.wire, ne_eq, not_true_eq_false, if_false, WireKind.tryFrom_toNat,
        decodePayload, if_true, hlimit]

namespace FrameDecoder

variable {codec : Codec} {d : FrameDecoder}

/-! ## Feeding lengths and bodies -/

def afterLength (codec : Codec) (d : FrameDecoder) (rest : List UInt8) :
    Except ProtocolError (List DecodedFrame × FrameDecoder) :=
  match d.takeBody codec [] with
  | .error e => .error e
  | .ok (frame, d, _) => after frame.toList (d.feedBytes codec rest)

theorem feedBytes_prefix (he : d.expectedBody = none) (byte : UInt8) (rest : List UInt8) :
    d.feedBytes codec (byte :: rest) =
      match d.takePrefix byte with
      | .error e => .error e
      | .ok d => afterLength codec d rest := by
  simp only [feedBytes, pass, he, Option.isNone_none, if_true]
  cases d.takePrefix byte <;> rfl

theorem afterLength_none (he : d.expectedBody = none) (rest : List UInt8) :
    afterLength codec d rest = d.feedBytes codec rest := by
  simp [afterLength, takeBody, he]

variable {body bytes stream : List UInt8} {chunks : List (List UInt8)} {d' : FrameDecoder}
  {frames : List DecodedFrame}

theorem afterLength_some {length : Nat} (he : d.expectedBody = some length) (hb : d.body = [])
    (hl : body.length = length) (rest : List UInt8) :
    afterLength codec d (body ++ rest) =
      match decodeWireFrame codec body d.maximumBodyBytes with
      | .error e => .error e
      | .ok frame => after [frame]
        (feedBytes codec { d with body := [], expectedBody := none, prefixBytes := [] } rest) := by
  by_cases hzero : length = 0
  · obtain rfl : body = [] := List.length_eq_zero_iff.mp (hl.trans hzero)
    have hfull : d.takeBody codec ([] ++ []) = _ := takeBody_full [] [] he (by simp [hb, hzero])
    simp only [List.append_nil, hb] at hfull
    rw [afterLength, hfull]
    cases decodeWireFrame codec [] d.maximumBodyBytes <;> rfl
  · have hshort : d.body.length + ([] : List UInt8).length < length := by
      simp [hb]
      omega
    rw [afterLength, takeBody_short he hshort]
    simp only [List.append_nil, Option.toList_none, after_nil]
    rw [feedBytes_full he (by simpa using hshort) (by simpa [hb] using hl), hb]
    rfl

theorem feedBytes_varint (hb : IsVarint bytes) (he : d.expectedBody = none)
    (hp : d.prefixBytes.length ≤ maxVarintBytes) (rest : List UInt8) :
    d.feedBytes codec (bytes ++ rest) =
      if maxVarintBytes < (d.prefixBytes ++ bytes).length then .error .malformedVarint
      else match decodeVarint (d.prefixBytes ++ bytes) with
        | .error e => .error e
        | .ok length =>
          if length > d.maximumBodyBytes then .error (.frameTooLarge length)
          else afterLength codec { d with
            prefixBytes := d.prefixBytes ++ bytes, body := [], expectedBody := some length } rest := by
  induction hb generalizing d with
  | @last byte hlast =>
    rw [List.singleton_append, feedBytes_prefix he, takePrefix]
    simp only [List.length_append, List.length_singleton, if_pos hlast]
    by_cases hfull : d.prefixBytes.length = maxVarintBytes
    · rw [if_pos hfull, if_pos (by omega)]
    · rw [if_neg hfull, if_neg (by omega)]
      cases decodeVarint (d.prefixBytes ++ [byte]) with
      | error e => rfl
      | ok length =>
        by_cases hmax : length > d.maximumBodyBytes
        · simp only [if_pos hmax]
        · simp only [if_neg hmax]
  | @more byte bytes hmore hbytes ih =>
    have hpos : 0 < bytes.length := by
      cases hbytes <;> exact Nat.succ_pos _
    have hlength : (d.prefixBytes ++ byte :: bytes).length =
        d.prefixBytes.length + bytes.length + 1 := by
      simp
      omega
    rw [List.cons_append, feedBytes_prefix he, takePrefix, hlength]
    simp only [List.length_append, List.length_singleton,
      if_neg (show ¬ byte.toNat < 128 by omega)]
    by_cases hfull : d.prefixBytes.length = maxVarintBytes
    · rw [if_pos hfull, if_pos (by omega)]
    · rw [if_neg hfull]
      by_cases hlast : d.prefixBytes.length + 1 = maxVarintBytes
      · rw [if_pos hlast, if_pos (by omega)]
      · rw [if_neg hlast]
        have hrest := @ih { d with prefixBytes := d.prefixBytes ++ [byte] } he (by simp; omega)
        simp only [List.append_assoc, List.singleton_append] at hrest
        rw [hlength] at hrest
        simp only [afterLength_none (d := { d with prefixBytes := d.prefixBytes ++ [byte] }) he]
        exact hrest

def Clean (d : FrameDecoder) : Prop := d.prefixBytes = [] ∧ d.body = [] ∧ d.expectedBody = none

variable (maximumBodyBytes : Nat)

theorem clean_withMaximumBodyBytes :
    (withMaximumBodyBytes maximumBodyBytes).Clean := ⟨rfl, rfl, rfl⟩

theorem feedBytes_framed (hd : d.Clean) (hmax : d.maximumBodyBytes < 2 ^ 64)
    (hl : body.length ≤ d.maximumBodyBytes) (rest : List UInt8) :
    d.feedBytes codec (framed body ++ rest) =
      match decodeWireFrame codec body d.maximumBodyBytes with
      | .error e => .error e
      | .ok frame => after [frame] (d.feedBytes codec rest) := by
  obtain ⟨hp, hb, he⟩ := hd
  have hlength := encodeVarint_length (k := 10) (by decide)
    (show body.length < 128 ^ 10 from (hl.trans_lt hmax).trans (by decide))
  rw [framed, List.append_assoc, feedBytes_varint (encodeVarint_isVarint _) he (by simp [hp]), hp,
    List.nil_append, if_neg (by rw [maxVarintBytes]; omega),
    decodeVarint_encode (hl.trans_lt hmax)]
  simp only [if_neg (show ¬ body.length > d.maximumBodyBytes by omega)]
  rw [afterLength_some rfl rfl rfl]
  have heta : { d with prefixBytes := [], body := [], expectedBody := none } = d := by
    cases d
    simp_all
  simp only [heta]

theorem feedBytes_framed_large (hd : d.Clean) (hmax : d.maximumBodyBytes < body.length)
    (rest : List UInt8) :
    ∃ e, d.feedBytes codec (framed body ++ rest) = .error e := by
  obtain ⟨hp, hb, he⟩ := hd
  rw [framed, List.append_assoc, feedBytes_varint (encodeVarint_isVarint _) he (by simp [hp]), hp,
    List.nil_append]
  split
  · exact ⟨_, rfl⟩
  cases hv : decodeVarint (encodeVarint body.length) with
  | error e => exact ⟨_, rfl⟩
  | ok length =>
    obtain ⟨hbytes, -⟩ := encode_of_decodeVarint (encodeVarint_isVarint _) hv
    obtain rfl := encodeVarint_injective hbytes
    exact ⟨_, if_pos hmax⟩

theorem feedBytes_overlong (hd : d.Clean) (hb : IsVarint bytes)
    (hlong : ∀ value < 2 ^ 64, bytes ≠ encodeVarint value) (rest : List UInt8) :
    d.feedBytes codec (bytes ++ rest) = .error .malformedVarint := by
  obtain ⟨hp, -, he⟩ := hd
  rw [feedBytes_varint hb he (by simp [hp]), hp, List.nil_append]
  split
  · rfl
  cases hv : decodeVarint bytes with
  | error e => rw [decodeVarintFrom_error hv]
  | ok value =>
    obtain ⟨hbytes, hlt⟩ := encode_of_decodeVarint hb hv
    exact absurd hbytes (hlong value hlt)

/-! ## Streams in pieces -/

/-- The calls of a stream: the frames they return up to the first failure, and the outcome. -/
def feedAll (codec : Codec) :
    FrameDecoder → List (List UInt8) → List DecodedFrame × Except ProtocolError FrameDecoder
  | d, [] => ([], .ok d)
  | d, chunk :: chunks =>
    match d.feed codec chunk with
    | .error e => ([], .error e)
    | .ok (frames, d) => (frames ++ (feedAll codec d chunks).1, (feedAll codec d chunks).2)

theorem feedAll_append (codec : Codec) (d : FrameDecoder) (chunks more : List (List UInt8)) :
    feedAll codec d (chunks ++ more) =
      match feedAll codec d chunks with
      | (frames, .error e) => (frames, .error e)
      | (frames, .ok d) => (frames ++ (feedAll codec d more).1, (feedAll codec d more).2) := by
  induction chunks generalizing d with
  | nil => rfl
  | cons chunk chunks ih =>
    simp only [List.cons_append, feedAll]
    cases d.feed codec chunk with
    | error e => rfl
    | ok out =>
      obtain ⟨frames, d'⟩ := out
      simp only [ih]
      cases feedAll codec d' chunks with
      | mk more result => cases result <;> simp

theorem feedAll_eq (codec : Codec) (hs : d.Short) (chunks : List (List UInt8)) :
    match d.feedBytes codec chunks.flatten with
    | .error e => (feedAll codec d chunks).2 = .error e
    | .ok (frames, d') => feedAll codec d chunks = (frames, .ok d') := by
  induction chunks generalizing d with
  | nil => rfl
  | cons chunk chunks ih =>
    rw [List.flatten_cons, feedBytes_append, feedAll, feed_bytes hs]
    cases h : d.feedBytes codec chunk with
    | error e => rfl
    | ok out =>
      obtain ⟨frames, d'⟩ := out
      have hrest := ih (feedBytes_shortened hs h)
      dsimp only
      cases hr : d'.feedBytes codec chunks.flatten with
      | error e => simpa [hr, after] using hrest
      | ok out =>
        rw [hr] at hrest
        dsimp only at hrest
        rw [hrest]
        rfl

def bytewise (stream : List UInt8) : List (List UInt8) := stream.map ([·])

theorem bytewise_flatten (stream : List UInt8) : (bytewise stream).flatten = stream := by
  induction stream with
  | nil => rfl
  | cons byte stream ih => simpa [bytewise] using ih

theorem feedAll_outcome (hs : d.Short) {chunks' : List (List UInt8)}
    (h : chunks.flatten = chunks'.flatten) :
    (feedAll codec d chunks).2 = (feedAll codec d chunks').2 := by
  have h₁ := feedAll_eq codec hs chunks
  have h₂ := feedAll_eq codec hs chunks'
  rw [h] at h₁
  cases hb : d.feedBytes codec chunks'.flatten with
  | error e =>
    rw [hb] at h₁ h₂
    exact h₁.trans h₂.symm
  | ok out =>
    rw [hb] at h₁ h₂
    dsimp only at h₁ h₂
    rw [h₁, h₂]

theorem feedAll_ok (hs : d.Short) (hok : (feedAll codec d chunks).2 = .ok d') :
    ∃ frames, d.feedBytes codec chunks.flatten = .ok (frames, d') ∧
      feedAll codec d chunks = (frames, .ok d') := by
  have hall := feedAll_eq codec hs chunks
  cases hb : d.feedBytes codec chunks.flatten with
  | error e =>
    rw [hb] at hall
    dsimp only at hall
    rw [hok] at hall
    cases hall
  | ok out =>
    obtain ⟨frames, d₁⟩ := out
    rw [hb] at hall
    dsimp only at hall
    rw [hall] at hok
    obtain rfl := Except.ok.inj hok
    exact ⟨frames, rfl, hall⟩

theorem feedAll_frames (hs : d.Short) {chunks' : List (List UInt8)}
    (h : chunks.flatten = chunks'.flatten) (hok : (feedAll codec d chunks).2 = .ok d') :
    (feedAll codec d chunks).1 = (feedAll codec d chunks').1 := by
  obtain ⟨frames, hbytes, hall⟩ := feedAll_ok hs hok
  have hall' := feedAll_eq codec hs chunks'
  rw [← h, hbytes] at hall'
  rw [hall, hall']

/-- A failure costs at most the frames completed in the same call. -/
theorem feedAll_bytewise (hs : d.Short) (chunks : List (List UInt8)) :
    (feedAll codec d chunks).1 <+: (feedAll codec d (bytewise chunks.flatten)).1 := by
  induction chunks generalizing d with
  | nil => exact List.nil_prefix
  | cons chunk chunks ih =>
    cases h : d.feed codec chunk with
    | error e =>
      rw [feedAll, h]
      exact List.nil_prefix
    | ok out =>
      obtain ⟨frames, d'⟩ := out
      have hchunk : feedAll codec d (bytewise chunk) = (frames, .ok d') := by
        have hbytes := feedAll_eq codec hs (bytewise chunk)
        rwa [bytewise_flatten, ← feed_bytes hs, h] at hbytes
      have hshort : d'.Short := feedBytes_shortened hs (feed_bytes hs chunk ▸ h)
      rw [List.flatten_cons, bytewise, List.map_append]
      have happend := feedAll_append codec d (bytewise chunk) (bytewise chunks.flatten)
      rw [hchunk] at happend
      rw [bytewise, bytewise] at happend
      rw [happend, feedAll, h]
      exact List.prefix_append_right_inj _ |>.mpr (ih hshort)

/-! ## Frame boundaries -/

/-- What the decoder holds of a stream it took: whole framed bodies, then the part at hand. -/
structure Holds (d : FrameDecoder) (stream : List UInt8) : Prop where
  parsed : ∃ bodies : List (List UInt8),
    stream = (bodies.map framed).flatten ++ (d.prefixBytes ++ d.body)
  collecting : d.expectedBody = none → d.body = [] ∧ ∀ byte ∈ d.prefixBytes, 128 ≤ byte.toNat
  reading : ∀ length, d.expectedBody = some length → d.prefixBytes = encodeVarint length

theorem isVarint_append {byte : UInt8} (h : ∀ b ∈ bytes, 128 ≤ b.toNat) (hlast : byte.toNat < 128) :
    IsVarint (bytes ++ [byte]) := by
  induction bytes with
  | nil => exact .last hlast
  | cons b bytes ih =>
    exact .more (h b (List.mem_cons_self ..)) (ih fun b hb => h b (List.mem_cons_of_mem _ hb))

theorem Holds.start : (withMaximumBodyBytes maximumBodyBytes).Holds [] :=
  ⟨⟨[], rfl⟩, fun _ => ⟨rfl, fun _ h => by cases h⟩, fun _ h => by cases h⟩

theorem Holds.takeBody {input rest : List UInt8} {frame : Option DecodedFrame} {length : Nat}
    (h : d.Holds stream) (he : d.expectedBody = some length) (hfit : d.body.length ≤ length)
    (ht : d.takeBody codec input = .ok (frame, d', rest)) :
    ∃ taken, input = taken ++ rest ∧ d'.Holds (stream ++ taken) := by
  obtain ⟨bodies, rfl⟩ := h.parsed
  obtain ⟨taken, rfl, ⟨hend, rfl⟩ | ⟨-, rfl, rfl⟩⟩ := takeBody_ok he ht hfit
  · refine ⟨taken, rfl, ⟨bodies ++ [d.body ++ taken], ?_⟩, fun _ => ⟨rfl, fun _ h => by cases h⟩,
      fun _ h => by cases h⟩
    simp [framed, h.reading length he, ← hend]
  · refine ⟨taken, rfl, ⟨bodies, by simp⟩, fun hnone => ?_, h.reading⟩
    exact absurd (he.symm.trans hnone) (by simp)

theorem Holds.pass {rest : List UInt8} {byte : UInt8} {frame : Option DecodedFrame}
    (h : d.Holds stream) (hs : d.Short) (hp : d.pass codec [byte] = .ok (frame, d', rest)) :
    d'.Holds (stream ++ [byte]) := by
  obtain rfl : rest = [] := by
    have hlt := (pass_ok hs hp).2
    simpa using hlt
  cases he : d.expectedBody with
  | some length =>
    rw [pass_body he] at hp
    obtain ⟨taken, htaken, hd'⟩ := h.takeBody he (hs length he).le hp
    rwa [htaken, List.append_nil]
  | none =>
    obtain ⟨hbody, hmore⟩ := h.collecting he
    obtain ⟨bodies, hstream⟩ := h.parsed
    rw [hbody, List.append_nil] at hstream
    simp only [FrameDecoder.pass, he, Option.isNone_none, if_true] at hp
    cases ht : d.takePrefix byte with
    | error e =>
      rw [ht] at hp
      cases hp
    | ok d₁ =>
      rw [ht] at hp
      dsimp only at hp
      obtain ⟨-, ⟨hlast, rfl⟩ | ⟨hlast, length, -, hlength, rfl⟩⟩ := takePrefix_ok ht
      · simp only [FrameDecoder.takeBody, he] at hp
        obtain ⟨-, rfl⟩ := by simpa using hp
        refine ⟨⟨bodies, by simp [hstream, hbody]⟩, fun _ => ⟨hbody, fun b hb => ?_⟩, by simp⟩
        rcases List.mem_append.mp hb with hb | hb
        · exact hmore b hb
        · rwa [List.mem_singleton.mp hb]
      · -- the length is complete; an empty body is complete with it
        have hopen : Holds { d with
            prefixBytes := d.prefixBytes ++ [byte], body := [], expectedBody := some length }
            (stream ++ [byte]) := by
          refine ⟨⟨bodies, by simp [hstream]⟩, by simp, fun found hfound => ?_⟩
          obtain rfl := Option.some.inj hfound
          exact (encode_of_decodeVarint (isVarint_append hmore hlast) hlength).1
        obtain ⟨taken, htaken, hd'⟩ := hopen.takeBody rfl (Nat.zero_le _) hp
        obtain rfl : taken = [] := (List.append_nil taken).symm.trans htaken.symm
        simpa using hd'

theorem Holds.feedBytes {input : List UInt8} (h : d.Holds stream) (hs : d.Short)
    (hf : d.feedBytes codec input = .ok (frames, d')) : d'.Holds (stream ++ input) :=
  (@feedBytes_keeps codec d d' input (fun d stream => d.Holds stream ∧ d.Short) stream frames
    (fun _ _ _ _ _ _ ⟨h, hs⟩ hp => ⟨h.pass hs hp, (pass_ok hs hp).1⟩) ⟨h, hs⟩ hf).1

theorem feedBytes_bodies {bodies : List (List UInt8)} (hd : d.Clean)
    (hmax : d.maximumBodyBytes < 2 ^ 64)
    (h : d.feedBytes codec (bodies.map framed).flatten = .ok (frames, d')) : d' = d := by
  induction bodies generalizing frames with
  | nil =>
    obtain ⟨-, rfl⟩ := by simpa [feedBytes] using h
    rfl
  | cons body bodies ih =>
    rw [List.map_cons, List.flatten_cons] at h
    rcases Nat.lt_or_ge d.maximumBodyBytes body.length with hlarge | hfits
    · obtain ⟨e, he⟩ : ∃ e, d.feedBytes codec (framed body ++ (bodies.map framed).flatten) =
          .error e := feedBytes_framed_large hd hlarge _
      rw [he] at h
      cases h
    · rw [feedBytes_framed hd hmax hfits] at h
      cases hdecode : decodeWireFrame codec body d.maximumBodyBytes with
      | error e =>
        rw [hdecode] at h
        cases h
      | ok frame =>
        rw [hdecode] at h
        obtain ⟨more, hrest⟩ := after_ok h
        exact ih hrest

theorem finish_ok_iff {d : FrameDecoder} :
    d.finish = .ok () ↔ d.prefixBytes = [] ∧ d.expectedBody = none := by
  unfold finish
  split <;> simp_all

theorem maximumBodyBytes_lt :
    (withMaximumBodyBytes maximumBodyBytes).maximumBodyBytes < 2 ^ 64 :=
  (min_le_right _ _).trans_lt (by decide)

theorem short_withMaximumBodyBytes :
    (withMaximumBodyBytes maximumBodyBytes).Short := fun _ h => by cases h

/-- The stream ends at a frame boundary exactly when `finish` succeeds. -/
theorem finish_iff {maximumBodyBytes : Nat}
    (h : (feedAll codec (withMaximumBodyBytes maximumBodyBytes) chunks).2 = .ok d') :
    d'.finish = .ok () ↔
      ∃ bodies : List (List UInt8), chunks.flatten = (bodies.map framed).flatten := by
  have hs := short_withMaximumBodyBytes maximumBodyBytes
  obtain ⟨frames, hb, -⟩ := feedAll_ok hs h
  have hholds := (Holds.start maximumBodyBytes).feedBytes hs hb
  rw [List.nil_append] at hholds
  constructor
  · intro hfinish
    obtain ⟨hpre, hnone⟩ := finish_ok_iff.mp hfinish
    obtain ⟨bodies, hbodies⟩ := hholds.parsed
    exact ⟨bodies, by rw [hbodies, hpre, (hholds.collecting hnone).1]; simp⟩
  · rintro ⟨bodies, hbodies⟩
    rw [hbodies] at hb
    rw [feedBytes_bodies (clean_withMaximumBodyBytes _) (maximumBodyBytes_lt _) hb]
    rfl

/-! ## What is buffered -/

def bufferedLen (d : FrameDecoder) : Nat := d.prefixBytes.length + d.body.length

def prefixLeft (d : FrameDecoder) (byte : UInt8) : FrameDecoder :=
  match d.takePrefix byte with
  | .ok d => d
  | .error _ =>
    if d.prefixBytes.length = maxVarintBytes then d
    else { d with prefixBytes := d.prefixBytes ++ [byte] }

def bodyLeft (codec : Codec) (d : FrameDecoder) (input : List UInt8) : FrameDecoder :=
  match d.takeBody codec input with
  | .ok (_, d, _) => d
  | .error _ => { d with body := [], expectedBody := none, prefixBytes := [] }

def passLeft (codec : Codec) (d : FrameDecoder) : List UInt8 → FrameDecoder
  | [] => d
  | byte :: input =>
    if d.expectedBody.isNone then
      match d.takePrefix byte with
      | .error _ => d.prefixLeft byte
      | .ok d => d.bodyLeft codec input
    else d.bodyLeft codec (byte :: input)

/-- The decoder after so many passes of a call's loop, or where the loop stopped. -/
def left (codec : Codec) : Nat → FrameDecoder → List UInt8 → FrameDecoder
  | 0, d, _ => d
  | fuel + 1, d, input =>
    if input.isEmpty then d else
    match d.pass codec input with
    | .error _ => d.passLeft codec input
    | .ok (_, d, input) => left codec fuel d input

structure Bounded (limit : Nat) (d : FrameDecoder) : Prop where
  capped : d.maximumBodyBytes = limit
  length : d.prefixBytes.length ≤ maxVarintBytes
  idle : d.expectedBody = none → d.body = []
  body : ∀ expected, d.expectedBody = some expected → expected ≤ limit ∧ d.body.length ≤ expected

namespace Bounded

variable {limit : Nat}

theorem bufferedLen_le (h : Bounded limit d) : d.bufferedLen ≤ limit + maxVarintBytes := by
  have hlength := h.length
  unfold bufferedLen
  cases he : d.expectedBody with
  | none =>
    rw [h.idle he, List.length_nil]
    omega
  | some expected =>
    obtain ⟨hle, hbody⟩ := h.body expected he
    omega

theorem takePrefix {byte : UInt8} {d' : FrameDecoder} (h : Bounded limit d)
    (ht : d.takePrefix byte = .ok d') : Bounded limit d' := by
  have hlength := h.length
  obtain ⟨hroom, ⟨-, rfl⟩ | ⟨-, length, hmax, -, rfl⟩⟩ := takePrefix_ok ht
  · exact ⟨h.capped, by simp; omega, h.idle, h.body⟩
  · refine ⟨h.capped, by simp; omega, nofun, fun expected hexpected => ?_⟩
    obtain rfl := Option.some.inj hexpected
    exact ⟨h.capped ▸ hmax, Nat.zero_le _⟩

theorem prefixLeft (h : Bounded limit d) (byte : UInt8) :
    Bounded limit (d.prefixLeft byte) := by
  have hlength := h.length
  unfold FrameDecoder.prefixLeft
  cases ht : d.takePrefix byte with
  | ok d' => exact h.takePrefix ht
  | error e =>
    dsimp only
    split
    · exact h
    · exact ⟨h.capped, by simp; omega, h.idle, h.body⟩

theorem bodyLeft (h : Bounded limit d) (input : List UInt8) :
    Bounded limit (d.bodyLeft codec input) := by
  unfold FrameDecoder.bodyLeft
  cases ht : d.takeBody codec input with
  | error e => exact ⟨h.capped, Nat.zero_le _, fun _ => rfl, fun _ he => by cases he⟩
  | ok out =>
    obtain ⟨frame, d', rest⟩ := out
    cases he : d.expectedBody with
    | none =>
      simp only [takeBody, he, Except.ok.injEq, Prod.mk.injEq] at ht
      obtain ⟨-, rfl, -⟩ := ht
      exact h
    | some expected =>
      obtain ⟨hle, hbody⟩ := h.body expected he
      obtain ⟨taken, rfl, ⟨-, rfl⟩ | ⟨hopen, rfl, rfl⟩⟩ := takeBody_ok he ht hbody
      · exact ⟨h.capped, Nat.zero_le _, fun _ => rfl, fun _ he => by cases he⟩
      · refine ⟨h.capped, h.length, fun hnone => absurd (he.symm.trans hnone) (by simp),
          fun found hfound => ?_⟩
        obtain rfl := Option.some.inj (he.symm.trans hfound)
        exact ⟨hle, by simpa using hopen.le⟩

theorem passLeft (h : Bounded limit d) (input : List UInt8) :
    Bounded limit (d.passLeft codec input) := by
  unfold FrameDecoder.passLeft
  split
  · exact h
  · rename_i byte input
    split
    · cases ht : d.takePrefix byte with
      | error e => exact h.prefixLeft byte
      | ok d' => exact (h.takePrefix ht).bodyLeft input
    · exact h.bodyLeft _

theorem of_pass {input rest : List UInt8} {frame : Option DecodedFrame} {d' : FrameDecoder}
    (hp : d.pass codec input = .ok (frame, d', rest)) : d.passLeft codec input = d' := by
  cases input with
  | nil =>
    simp only [FrameDecoder.pass, Except.ok.injEq, Prod.mk.injEq] at hp
    exact hp.2.1
  | cons byte input =>
    simp only [FrameDecoder.pass, FrameDecoder.passLeft] at hp ⊢
    split at hp
    · rw [if_pos ‹_›]
      cases ht : d.takePrefix byte with
      | error e =>
        rw [ht] at hp
        cases hp
      | ok d₁ =>
        rw [ht] at hp
        dsimp only at hp ⊢
        rw [FrameDecoder.bodyLeft, hp]
    · rw [if_neg ‹_›, FrameDecoder.bodyLeft, hp]

theorem left (h : Bounded limit d) (fuel : Nat) (input : List UInt8) :
    Bounded limit (FrameDecoder.left codec fuel d input) := by
  induction fuel generalizing d input with
  | zero => exact h
  | succ fuel ih =>
    rw [FrameDecoder.left]
    split
    · exact h
    · have hpass : Bounded limit (d.passLeft codec input) := h.passLeft input
      cases hp : d.pass codec input with
      | error e => exact hpass
      | ok out =>
        obtain ⟨frame, d', rest⟩ := out
        rw [of_pass hp] at hpass
        exact ih hpass rest

end Bounded

def afterCall (codec : Codec) (d : FrameDecoder) (chunk : List UInt8) : FrameDecoder :=
  left codec chunk.length d chunk

theorem bounded_calls {limit : Nat} (h : Bounded limit d) (chunks : List (List UInt8)) :
    Bounded limit (chunks.foldl (afterCall codec) d) := by
  induction chunks generalizing d with
  | nil => exact h
  | cons chunk chunks ih => exact ih (h.left chunk.length chunk)

/-! ## The codec -/

/-- Encoded frames come back, in whatever pieces they arrive. -/
theorem feedBytes_encoded {encode : WireFrame → List UInt8} {pieces : List (List UInt8)}
    (hd : d.Clean) (hmax : d.maximumBodyBytes < 2 ^ 64)
    (henc : List.Forall₂ (fun frame bytes => encodePayload encode frame.kind frame.requestId frame.deadlineMs frame.payload = .ok bytes) frames pieces)
    (hlib : ∀ frame ∈ frames, codec.wireFrame (encode frame.wire) = .ok frame.wire ∧ (encode frame.wire).length ≤ d.maximumBodyBytes) :
    d.feedBytes codec pieces.flatten = .ok (frames, d) := by
  induction henc with
  | nil => rfl
  | @cons frame bytes frames pieces hbytes _ ih =>
    obtain ⟨hcodec, hfits⟩ := hlib frame (List.mem_cons_self ..)
    obtain ⟨rfl, hdecode⟩ := encodePayload_ok codec d.maximumBodyBytes hbytes hcodec
    rw [List.flatten_cons, feedBytes_framed hd hmax hfits, hdecode,
      ih fun frame hframe => hlib frame (List.mem_cons_of_mem _ hframe)]
    rfl

/-- The frame codec under arbitrary chunking. -/
theorem frame_codec_chunking (codec : Codec) (maximumBodyBytes : Nat) :
    let d := withMaximumBodyBytes maximumBodyBytes
    -- encoded frames within the limit come back in order
    (∀ (encode : WireFrame → List UInt8) (frames : List DecodedFrame)
        (pieces chunks : List (List UInt8)),
      List.Forall₂ (fun frame bytes => encodePayload encode frame.kind frame.requestId
        frame.deadlineMs frame.payload = .ok bytes) frames pieces →
      (∀ frame ∈ frames, codec.wireFrame (encode frame.wire) = .ok frame.wire ∧
        (encode frame.wire).length ≤ d.maximumBodyBytes) →
      chunks.flatten = pieces.flatten → feedAll codec d chunks = (frames, .ok d)) ∧
    -- the outcome does not depend on the pieces, nor do the frames without a failure; a failure
    -- costs the frames of its own call
    (∀ chunks chunks' : List (List UInt8), chunks.flatten = chunks'.flatten →
      (feedAll codec d chunks).2 = (feedAll codec d chunks').2 ∧
      (∀ d', (feedAll codec d chunks).2 = .ok d' →
        (feedAll codec d chunks).1 = (feedAll codec d chunks').1) ∧
      (feedAll codec d chunks).1 <+: (feedAll codec d (bytewise chunks'.flatten)).1) ∧
    -- `finish` succeeds exactly at a frame boundary
    (∀ (chunks : List (List UInt8)) (d' : FrameDecoder), (feedAll codec d chunks).2 = .ok d' →
      (d'.finish = .ok () ↔
        ∃ bodies : List (List UInt8), chunks.flatten = (bodies.map framed).flatten)) ∧
    -- after any calls and any part of another, little is buffered
    (∀ (chunks : List (List UInt8)) (passes : Nat) (chunk : List UInt8),
      (left codec passes (chunks.foldl (afterCall codec) d) chunk).bufferedLen ≤
        d.maximumBodyBytes + maxVarintBytes) ∧
    -- a length that is not the shortest form of a 64-bit number is rejected
    (∀ (before bytes rest : List UInt8) (chunks : List (List UInt8)) (d' : FrameDecoder),
      (feedAll codec d [before]).2 = .ok d' → d'.finish = .ok () → IsVarint bytes →
      (∀ value < 2 ^ 64, bytes ≠ encodeVarint value) →
      chunks.flatten = before ++ (bytes ++ rest) →
      (feedAll codec d chunks).2 = .error .malformedVarint) := by
  intro d
  have hs : d.Short := short_withMaximumBodyBytes maximumBodyBytes
  have hmax : d.maximumBodyBytes < 2 ^ 64 := maximumBodyBytes_lt maximumBodyBytes
  have hclean : d.Clean := clean_withMaximumBodyBytes maximumBodyBytes
  refine ⟨fun encode frames pieces chunks henc hlib hchunks => ?_,
    fun chunks chunks' h => ⟨feedAll_outcome hs h, fun d' hok => feedAll_frames hs h hok, ?_⟩,
    fun chunks d' hok => finish_iff hok, fun chunks passes chunk => ?_,
    fun before bytes rest chunks d' hok hfinish hb hlong hchunks => ?_⟩
  · have hall := feedAll_eq codec hs chunks
    rwa [hchunks, feedBytes_encoded hclean hmax henc hlib] at hall
  · rw [← h]
    exact feedAll_bytewise hs chunks
  · have hstart : Bounded d.maximumBodyBytes d :=
      ⟨rfl, Nat.zero_le _, fun _ => rfl, fun _ he => by cases he⟩
    exact ((bounded_calls hstart chunks).left passes chunk).bufferedLen_le
  · obtain ⟨frames, hbefore, -⟩ := feedAll_ok hs hok
    rw [List.flatten_singleton] at hbefore
    obtain ⟨hpre, hnone⟩ := finish_ok_iff.mp hfinish
    have hbody := (((Holds.start maximumBodyBytes).feedBytes hs hbefore).collecting hnone).1
    have hwhole := feedAll_eq codec hs chunks
    rw [hchunks, feedBytes_append, hbefore] at hwhole
    dsimp only at hwhole
    rwa [feedBytes_overlong ⟨hpre, hbody, hnone⟩ hb hlong] at hwhole

def oneMessage : Codec where
  wireFrame body :=
    if body = [1] then .ok (DecodedFrame.wire ⟨.localStatusRequest, 7, 0, []⟩)
    else .error "unknown message"
  encodedLen _ := 1
  inflate _ _ := .error .invalidPayloadEncoding

/-- Two frames in three pieces, one of them inside a frame. -/
theorem frame_codec_chunking_two :
    feedAll oneMessage (withMaximumBodyBytes 64) [[1], [1, 1], [1]] =
      ([⟨.localStatusRequest, 7, 0, []⟩, ⟨.localStatusRequest, 7, 0, []⟩],
        .ok (withMaximumBodyBytes 64)) := by
  have hlength : encodeVarint 1 = [1] := by rw [encodeVarint]; rfl
  have henc : encodePayload (fun _ => [1]) .localStatusRequest 7 0 [] = .ok [1, 1] := by
    simp [encodePayload, validatePayloadLimit, maxFrameBytes, hlength]
  refine (frame_codec_chunking oneMessage 64).1 (fun _ => [1]) _ [[1, 1], [1, 1]] _
    (.cons henc (.cons henc .nil)) (fun frame hframe => ?_) rfl
  obtain rfl : frame = ⟨.localStatusRequest, 7, 0, []⟩ := by simpa using hframe
  exact ⟨rfl, by decide⟩

/-- The same stream in one piece and in two: a frame that is complete before a malformed one is
returned only if no call holds both. -/
theorem frames_before_failure_depend :
    feedAll oneMessage (withMaximumBodyBytes 64) [[1, 1, 0]] =
        ([], .error (.malformedProtobuf "unknown message")) ∧
      feedAll oneMessage (withMaximumBodyBytes 64) [[1, 1], [0]] =
        ([⟨.localStatusRequest, 7, 0, []⟩], .error (.malformedProtobuf "unknown message")) := by
  constructor <;> rfl

end FrameDecoder

end Voytty.Proto
