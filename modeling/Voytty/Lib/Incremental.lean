import Mathlib

/-!
# Incremental decoders

A decoder keeps what it has not understood yet in its state and runs a loop
over it: a pass goes on with the rest, stops to wait for more input, or fails.
`Decodes` is a loop run to its stop over states the decoder is trusted on; what
it emits is compared by the units it stands for, so that a decoder may group
them as it likes.

`Decodes.feeds`: if every pass over input cut short either is the pass over the
whole or leaves a state from which the whole can be resumed, then the units
decoded do not depend on how the input is cut.
-/

namespace Voytty.Lib

variable {σ β ο υ ε : Type}

/-- One pass of a decoder's loop. -/
inductive Pass (σ ο ε : Type) where
  | go (out : List ο) (s : σ)
  | stop (out : List ο) (s : σ)
  | fail (error : ε)

section

variable (pass : σ → Pass σ ο ε) (units : ο → List υ) (Trusted : σ → Prop)

/-- A loop run to its stop, with the units it emits. -/
inductive Decodes : σ → List υ → σ → Prop where
  | stop {s t : σ} {out : List ο} (trusted : Trusted s) (h : pass s = .stop out t) :
      Decodes s (out.flatMap units) t
  | go {s s' t : σ} {out : List ο} {us : List υ} (trusted : Trusted s)
      (h : pass s = .go out s') (rest : Decodes s' us t) :
      Decodes s (out.flatMap units ++ us) t

variable (extend : σ → List β → σ)

/-- Input cut in a state: the pass takes no notice of what follows, or the loop ends in a state
from which what follows is decoded as in one piece. -/
def Cuts (s : σ) (rest : List β) : Prop :=
  (∃ out s', pass s = .go out s' ∧ pass (extend s rest) = .go out (extend s' rest)) ∨
    ∃ us s', Decodes pass units Trusted s us s' ∧
      ∀ ws t, Decodes pass units Trusted (extend s rest) ws t →
        ∃ ws' t', Decodes pass units Trusted (extend s' rest) ws' t' ∧ ws = us ++ ws'

/-- A stream fed chunk by chunk. -/
inductive Feeds : σ → List (List β) → List υ → σ → Prop where
  | nil (s : σ) : Feeds s [] [] s
  | cons {s s' t : σ} {chunk : List β} {chunks : List (List β)} {us ws : List υ}
      (first : Decodes pass units Trusted (extend s chunk) us s')
      (rest : Feeds s' chunks ws t) : Feeds s (chunk :: chunks) (us ++ ws) t

end

variable {pass : σ → Pass σ ο ε} {units : ο → List υ} {Trusted : σ → Prop}
  {extend : σ → List β → σ}

theorem Decodes.congr {s s' t : σ} {us : List υ} (hpass : pass s' = pass s) (hs' : Trusted s')
    (h : Decodes pass units Trusted s us t) : Decodes pass units Trusted s' us t := by
  cases h with
  | stop _ h => exact .stop hs' (hpass.trans h)
  | go _ h rest => exact .go hs' (hpass.trans h) rest

theorem Cuts.waits {s s' : σ} {rest : List β} (hs : Trusted s) (hstop : pass s = .stop [] s')
    (hpass : pass (extend s' rest) = pass (extend s rest)) (hs' : Trusted (extend s' rest)) :
    Cuts pass units Trusted extend s rest :=
  .inr ⟨_, s', .stop hs hstop, fun ws t h => ⟨ws, t, h.congr hpass hs', rfl⟩⟩

variable (hcut : ∀ s rest, Trusted (extend s rest) →
  Trusted s ∧ Cuts pass units Trusted extend s rest)
include hcut

theorem Decodes.split {s t : σ} {rest : List β} {us : List υ}
    (h : Decodes pass units Trusted (extend s rest) us t) :
    ∃ us₁ s₁ us₂ t₂, Decodes pass units Trusted s us₁ s₁ ∧
      Decodes pass units Trusted (extend s₁ rest) us₂ t₂ ∧ us = us₁ ++ us₂ := by
  generalize hx : extend s rest = x at h
  induction h generalizing s with
  | stop trusted h =>
    subst hx
    obtain ⟨hs, ⟨out, s', -, hgo⟩ | ⟨us, s', hdone, hresume⟩⟩ := hcut s rest trusted
    · rw [hgo] at h; cases h
    · obtain ⟨ws, t', hws, heq⟩ := hresume _ _ (.stop trusted h)
      exact ⟨us, s', ws, t', hdone, hws, heq⟩
  | go trusted h htail ih =>
    subst hx
    obtain ⟨hs, ⟨out, s', hgo, hgo'⟩ | ⟨us, s', hdone, hresume⟩⟩ := hcut s rest trusted
    · rw [hgo'] at h
      cases h
      obtain ⟨us₁, s₁, us₂, t₂, h₁, h₂, rfl⟩ := ih rfl
      exact ⟨_, s₁, us₂, t₂, .go hs hgo h₁, h₂, (List.append_assoc ..).symm⟩
    · obtain ⟨ws, t', hws, heq⟩ := hresume _ _ (.go trusted h htail)
      exact ⟨us, s', ws, t', hdone, hws, heq⟩

/-- The units of a stream are those of its chunks, however it is cut. -/
theorem Decodes.feeds (happend : ∀ s p q, extend (extend s p) q = extend s (p ++ q))
    {chunks : List (List β)} {s t : σ} {chunk : List β} {us : List υ}
    (h : Decodes pass units Trusted (extend s (chunk ++ chunks.flatten)) us t) :
    ∃ t', Feeds pass units Trusted extend s (chunk :: chunks) us t' := by
  induction chunks generalizing s t chunk us with
  | nil =>
    rw [List.flatten_nil, List.append_nil] at h
    exact ⟨t, by simpa using Feeds.cons h (.nil t)⟩
  | cons next chunks ih =>
    rw [List.flatten_cons, ← happend] at h
    obtain ⟨us₁, s₁, us₂, t₂, h₁, h₂, rfl⟩ := h.split hcut
    obtain ⟨t', h'⟩ := ih h₂
    exact ⟨t', .cons h₁ h'⟩

end Voytty.Lib
