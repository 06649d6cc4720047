import Mathlib

/-!
# Streaming decoders

A streaming decoder is called again and again with what is left of its input and
some room for output; each call reads a part of the input, writes a part of the
output and may find the end of the stream. `Content dec stream content` says
that `stream` is a complete stream for `content`.

A decoder is `Lawful` if it decodes a complete stream however the stream is cut
short or followed by other data, and makes progress while the stream is there.
Then complete streams are a prefix-free code (`Content.truncated`,
`Content.extended`).
-/

namespace Voytty.Lib

structure DecoderCall (σ β : Type) where
  state : σ
  ended : Bool
  read : Nat
  written : List β

/-- A call takes what is left of the input and the room for output; malformed input has no
result. -/
structure StreamDecoder (σ α β : Type) where
  start : σ
  call : σ → List α → Nat → Option (DecoderCall σ β)

namespace StreamDecoder

variable {σ α β : Type} (dec : StreamDecoder σ α β)

/-- Calls on the input `offer` before the end of the stream: how much was read, what was written,
and the state. -/
inductive Reached (offer : List α) : Nat → List β → σ → Prop where
  | start : Reached offer 0 [] dec.start
  | call {consumed room : Nat} {output : List β} {s : σ} {c : DecoderCall σ β}
      (hs : Reached offer consumed output s) (hroom : 0 < room)
      (hcall : dec.call s (offer.drop consumed) room = some c) (hgoing : c.ended = false) :
      Reached offer (consumed + c.read) (output ++ c.written) c.state

/-- The stream ends with its last element. -/
def Content (stream : List α) (content : List β) : Prop :=
  ∃ consumed room output s c, Reached dec stream consumed output s ∧ 0 < room ∧
    dec.call s (stream.drop consumed) room = some c ∧ c.ended = true ∧
    consumed + c.read = stream.length ∧ content = output ++ c.written

/-- One call on input that begins like `stream`. -/
structure Decoding (stream : List α) (content : List β) (offer : List α) (consumed : Nat)
    (output : List β) (c : DecoderCall σ β) : Prop where
  within : consumed + c.read ≤ stream.length
  agrees : output ++ c.written <+: content
  ends : c.ended = true → consumed + c.read = stream.length ∧ output ++ c.written = content
  progress : c.ended = false → stream <+: offer → 0 < c.read ∨ c.written ≠ []

structure Lawful : Prop where
  read_le : ∀ s input room c, dec.call s input room = some c → c.read ≤ input.length
  decodes : ∀ stream content, Content dec stream content →
    ∀ offer, offer <+: stream ∨ stream <+: offer →
    ∀ consumed output s, Reached dec offer consumed output s → ∀ room, 0 < room →
      ∃ c, dec.call s (offer.drop consumed) room = some c ∧
        Decoding stream content offer consumed output c

variable {dec}

theorem Reached.le (h : ∀ s input room c, dec.call s input room = some c → c.read ≤ input.length)
    {offer : List α} {consumed : Nat} {output : List β} {s : σ}
    (hs : Reached dec offer consumed output s) : consumed ≤ offer.length := by
  induction hs with
  | start => exact Nat.zero_le _
  | call _ _ hcall _ ih =>
    have hread := h _ _ _ _ hcall
    rw [List.length_drop] at hread
    omega

variable {stream : List α} {content content' : List β}

/-- Where a stream ends on input that begins like it, or that it begins with. -/
theorem Content.ends (h : Lawful dec) {offer : List α} (hstream : Content dec stream content)
    (hoffer : offer <+: stream ∨ stream <+: offer) (hother : Content dec offer content') :
    offer.length = stream.length ∧ content' = content := by
  obtain ⟨consumed, room, output, s, c, hs, hroom, hcall, hended, hlength, hcontent⟩ := hother
  obtain ⟨c', hcall', hdecoding⟩ := h.decodes stream content hstream offer hoffer consumed output s
    hs room hroom
  obtain rfl : c = c' := Option.some.inj (hcall.symm.trans hcall')
  obtain ⟨hend, hsame⟩ := hdecoding.ends hended
  exact ⟨hlength.symm.trans hend, hcontent.trans hsame⟩

theorem Content.unique (h : Lawful dec) (hstream : Content dec stream content)
    (hother : Content dec stream content') :
    content' = content :=
  (hstream.ends h (.inl (List.prefix_refl _)) hother).2

theorem Content.truncated (h : Lawful dec) (hstream : Content dec stream content) {k : Nat}
    (hk : k < stream.length) :
    ¬ Content dec (stream.take k) content' := by
  intro hother
  have hlength := (hstream.ends h (.inl (List.take_prefix k stream)) hother).1
  rw [List.length_take] at hlength
  omega

theorem Content.extended (h : Lawful dec) {more : List α} (hstream : Content dec stream content)
    (hmore : more ≠ []) :
    ¬ Content dec (stream ++ more) content' := by
  intro hother
  have hlength := (hstream.ends h (.inr (List.prefix_append stream more)) hother).1
  rw [List.length_append] at hlength
  exact hmore (List.length_eq_zero_iff.1 (by omega))

end StreamDecoder

end Voytty.Lib
