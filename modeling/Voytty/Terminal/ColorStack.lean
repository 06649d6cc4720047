import Voytty.Terminal.ColorState

/-!
# The colour stack

A pop writes every slot of the saved snapshot back as an override, and for a colour that
was not known also the slot it was inherited from. `restore_overrides` and
`restore_inheritedSources` say what the tables hold after it: with the reversal that held
at the push, every value and every source is the saved one. The saved snapshot also says
whether the cursor was custom, but a pop does not read that: it leaves an override in both
cursor slots, so the cursor is custom after every pop.
-/

namespace Voytty.Terminal

open Voytty.Lib Relation

namespace VoyttyColorState

variable {s t : VoyttyColorState}

/-! ## Restoring -/

theorem source_source (s : VoyttyColorState) (slot : Slot) : s.source (s.source slot) = slot := by
  unfold source
  cases s.reverse with
  | false => rfl
  | true =>
    simp only [Bool.not_true, Bool.false_eq_true, ↓reduceIte]
    revert slot
    decide +kernel

theorem eq_source_iff {slot k : Slot} : k = s.source slot ↔ s.source k = slot := by
  constructor
  · rintro rfl
    exact s.source_source slot
  · rintro rfl
    exact (s.source_source k).symm

theorem restoreSlot_tables (saved : TerminalColorSnapshot) (s : VoyttyColorState)
    (slot k : Slot) :
    (restoreSlot saved s slot).reverse = s.reverse ∧
    (restoreSlot saved s slot).overrides k =
      (if s.source k = slot then some (saved.profile.values slot) else s.overrides k) ∧
    (restoreSlot saved s slot).inheritedSources k =
      if s.source k = slot then
        if saved.profile.values slot = .unknown then some (saved.inheritedSources slot) else none
      else s.inheritedSources k := by
  have hsource : ∀ value, (s.set slot value).source = s.source := fun _ => rfl
  unfold restoreSlot
  dsimp only
  by_cases hk : s.source k = slot
  · have hk' := eq_source_iff.mpr hk
    split
    · rw [hsource, ← hk']
      simp [set, ← hk']
    · simp [set, ← hk']
  · have hk' : k ≠ s.source slot := fun h => hk (eq_source_iff.mp h)
    split
    · rw [hsource]
      simp [set, Function.update_of_ne hk']
    · simp [set, Function.update_of_ne hk']

theorem restoreSlots_tables (saved : TerminalColorSnapshot) (slots : List Slot)
    (s : VoyttyColorState) (k : Slot) (hk : s.source k ∈ slots ∨
      (s.overrides k = some (saved.profile.values (s.source k)) ∧
        s.inheritedSources k = if saved.profile.values (s.source k) = .unknown then
          some (saved.inheritedSources (s.source k)) else none)) :
    (slots.foldl (restoreSlot saved) s).overrides k = some (saved.profile.values (s.source k)) ∧
      (slots.foldl (restoreSlot saved) s).inheritedSources k =
        if saved.profile.values (s.source k) = .unknown then
          some (saved.inheritedSources (s.source k)) else none := by
  induction slots generalizing s with
  | nil => exact hk.resolve_left List.not_mem_nil
  | cons slot slots ih =>
    obtain ⟨hreverse, hoverride, hinherited⟩ := restoreSlot_tables saved s slot k
    have hsource : (restoreSlot saved s slot).source k = s.source k := by
      unfold source
      rw [hreverse]
    rw [List.foldl_cons, ← hsource]
    refine ih (restoreSlot saved s slot) ?_
    rw [hsource]
    by_cases hslot : s.source k = slot
    · rw [if_pos hslot, ← hslot] at hoverride hinherited
      subst hslot
      exact .inr ⟨hoverride, hinherited⟩
    · rw [if_neg hslot] at hoverride hinherited
      rcases hk with hmem | hdone
      · exact .inl (List.mem_of_ne_of_mem hslot hmem)
      · rw [hoverride, hinherited]
        exact .inr hdone

theorem restore_tables (s : VoyttyColorState) (saved : TerminalColorSnapshot) (k : Slot) :
    (s.restore saved).overrides k = some (saved.profile.values (s.source k)) ∧
      (s.restore saved).inheritedSources k =
        if saved.profile.values (s.source k) = .unknown then
          some (saved.inheritedSources (s.source k)) else none :=
  restoreSlots_tables saved _ s k (.inl (List.mem_finRange _))

theorem restore_effectiveSnapshot (s : VoyttyColorState) (saved : TerminalColorSnapshot) :
    (s.restore saved).effectiveSnapshot.profile = ⟨saved.profile.values, s.base.appearance⟩ ∧
      (s.restore saved).effectiveSnapshot.reverse = s.reverse ∧
      (s.restore saved).effectiveSnapshot.customCursor = true ∧
      ∀ slot, (s.restore saved).effectiveSnapshot.inheritedSources slot =
        if saved.profile.values slot = .unknown then saved.inheritedSources slot
        else (s.source slot).val := by
  obtain ⟨overrides, inheritedSources, hframe⟩ := s.restore_frame saved
  have hreverse : (s.restore saved).reverse = s.reverse := by rw [hframe]
  have hsource : (s.restore saved).source = s.source := by
    funext slot
    unfold source
    rw [hreverse]
  refine ⟨?_, hreverse, ?_, fun slot => ?_⟩
  · have happearance : (s.restore saved).base.appearance = s.base.appearance := by rw [hframe]
    simp only [effectiveSnapshot, effective, happearance]
    congr 1
    funext slot
    rw [value, hsource, (restore_tables s saved _).1, source_source]
    rfl
  · simp [effectiveSnapshot, (restore_tables s saved 258).1]
  · simp only [effectiveSnapshot]
    rw [hsource, (restore_tables s saved _).2, source_source]
    split
    · rfl
    · rfl

/-! ## What holds in every state -/

/-- A source is kept only for a colour that is overridden as not known; the stack is filled up to
its depth. -/
structure Stacked (s : VoyttyColorState) : Prop where
  sources : ∀ k n, s.inheritedSources k = some n → s.overrides k = some .unknown
  filled : ∀ i : Fin 10, i.val < s.depth → (s.saved i).isSome = true
  depth : s.depth ≤ s.stored
  stored : s.stored ≤ 10

theorem Stacked.default : VoyttyColorState.default.Stacked :=
  ⟨by simp [VoyttyColorState.default], by simp [VoyttyColorState.default], Nat.le_refl 0,
    Nat.zero_le _⟩

theorem Stacked.set (h : s.Stacked) (slot : Slot) (value : Option TerminalColorValue) :
    (s.set slot value).Stacked := by
  refine ⟨fun k n hn => ?_, h.filled, h.depth, h.stored⟩
  by_cases hk : k = s.source slot
  · simp [VoyttyColorState.set, hk] at hn
  · simp only [VoyttyColorState.set, Function.update_of_ne hk] at hn ⊢
    exact h.sources k n hn

theorem Stacked.push (h : s.Stacked) (index : Nat) : (s.stack true index).Stacked := by
  unfold VoyttyColorState.stack
  split
  · exact h
  rename_i slot hslot
  split
  · rename_i hlt
    have hdepth := h.depth
    have hstored := h.stored
    have htop : index = 0 → slot = s.depth := by
      intro hindex
      rw [stackSlot, if_pos hindex, if_pos rfl] at hslot
      exact (Option.some.inj hslot).symm
    refine ⟨h.sources, fun i hi => ?_, ?_, ?_⟩
    · by_cases hslot' : i = ⟨slot, hlt⟩
      · simp [hslot']
      · simp only [↓reduceIte, Function.update_of_ne hslot'] at hi ⊢
        refine h.filled i ?_
        have hne : i.val ≠ slot := fun he => hslot' (Fin.ext he)
        split at hi
        · rename_i hindex
          have := htop hindex
          omega
        · exact hi
    · simp only [↓reduceIte]
      split
      · rename_i hindex
        have := htop hindex
        omega
      · omega
    · simp only [↓reduceIte]
      omega
  · exact h

theorem Stacked.pop (h : s.Stacked) (index : Nat) : (s.stack false index).Stacked := by
  unfold VoyttyColorState.stack
  split
  · exact h
  split
  · simp only [Bool.false_eq_true, ↓reduceIte]
    split
    · exact h
    · rename_i saved hsaved
      have htables := restore_tables s saved
      obtain ⟨overrides, inheritedSources, hframe⟩ := s.restore_frame saved
      rw [hframe] at htables ⊢
      have hdepth := h.depth
      refine ⟨fun k n hn => ?_, fun i hi => h.filled i ?_, ?_, h.stored⟩
      · obtain ⟨hoverride, hinherited⟩ := htables k
        dsimp only at hoverride hinherited hn ⊢
        rw [hinherited] at hn
        split at hn
        · rename_i hunknown
          rw [hoverride, hunknown]
        · cases hn
      · dsimp only at hi
        split at hi <;> omega
      · dsimp only
        split <;> omega
  · exact h

end VoyttyColorState

inductive ColorStep : VoyttyColorState → VoyttyColorState → Prop where
  | edit {s s' : VoyttyColorState} (h : ColorEdit s s') : ColorStep s s'
  | commit (s : VoyttyColorState) (revision : Nat) : ColorStep s (s.commit revision)
  | base (s : VoyttyColorState) (base : TerminalColorProfile) : ColorStep s { s with base }

namespace VoyttyColorState

variable {s t : VoyttyColorState}

theorem commit_frame (s : VoyttyColorState) (revision : Nat) :
    ∃ snapshot, s.commit revision = { s with snapshot } := by
  unfold commit
  dsimp only
  split
  · exact ⟨_, rfl⟩
  · exact ⟨_, rfl⟩

theorem Stacked.step (h : s.Stacked) (hstep : ColorStep s t) : t.Stacked := by
  cases hstep with
  | edit hedit =>
    cases hedit with
    | set slot value => exact h.set slot value
    | stack store index =>
      cases store with
      | true => exact h.push index
      | false => exact h.pop index
    | reverse | subscribed => exact ⟨h.sources, h.filled, h.depth, h.stored⟩
    | reset => exact ⟨by simp [reset], by simp [reset], Nat.le_refl 0, Nat.zero_le _⟩
  | commit revision =>
    obtain ⟨snapshot, hframe⟩ := s.commit_frame revision
    rw [hframe]
    exact ⟨h.sources, h.filled, h.depth, h.stored⟩
  | base base => exact ⟨h.sources, h.filled, h.depth, h.stored⟩

theorem run_stacked (h : ReflTransGen ColorStep .default s) : s.Stacked := by
  induction h with
  | refl => exact .default
  | tail _ hlast ih => exact ih.step hlast

end VoyttyColorState

/-! ## Between a push and its pop -/

/-- Colour commands other than the stack's, and commits. -/
inductive Recolor (v : Vendor) : VoyttyColorState → VoyttyColorState → Prop where
  | osc {s : VoyttyColorState} {command : Nat} {payload finish : List Char} {o : OscState}
      (h : s.osc v command payload finish = some o)
      (hcommand : command ≠ 30001 ∧ command ≠ 30101) : Recolor v s o.colors
  | commit (s : VoyttyColorState) (revision : Nat) : Recolor v s (s.commit revision)

namespace VoyttyColorState

variable {s t : VoyttyColorState} {v : Vendor}

/-- What sets, resets and commits leave alone. -/
structure Keeps (s t : VoyttyColorState) : Prop where
  base : t.base = s.base
  reverse : t.reverse = s.reverse
  saved : t.saved = s.saved

theorem Keeps.trans {u : VoyttyColorState} (h : s.Keeps t) (h' : t.Keeps u) : s.Keeps u :=
  ⟨h'.base.trans h.base, h'.reverse.trans h.reverse, h'.saved.trans h.saved⟩

theorem keeps_sets (h : ColorSets s t) : s.Keeps t := by
  induction h with
  | refl => exact ⟨rfl, rfl, rfl⟩
  | tail _ hlast ih =>
    cases hlast with
    | set slot value => exact ih.trans ⟨rfl, rfl, rfl⟩

theorem keeps_recolors (h : ReflTransGen (Recolor v) s t) : s.Keeps t := by
  induction h with
  | refl => exact ⟨rfl, rfl, rfl⟩
  | tail _ hlast ih =>
    refine ih.trans ?_
    cases hlast with
    | osc hosc hcommand => exact keeps_sets (osc_sets hosc hcommand)
    | commit revision =>
      obtain ⟨snapshot, hframe⟩ := commit_frame _ revision
      rw [hframe]
      exact ⟨rfl, rfl, rfl⟩

theorem push_saves {push slot : Nat} (hpush : s.stackSlot true push = some slot)
    (hlt : slot < 10) :
    (s.stack true push).saved ⟨slot, hlt⟩ = some s.effectiveSnapshot ∧
      (s.stack true push).base = s.base ∧ (s.stack true push).reverse = s.reverse := by
  unfold stack
  rw [hpush]
  dsimp only
  rw [dif_pos hlt, if_pos rfl]
  exact ⟨Function.update_self .., rfl, rfl⟩

theorem pop_restores {pop slot : Nat} {saved : TerminalColorSnapshot}
    (hpop : t.stackSlot false pop = some slot) (hlt : slot < 10)
    (hsaved : t.saved ⟨slot, hlt⟩ = some saved) :
    (t.stack false pop).effectiveSnapshot = (t.restore saved).effectiveSnapshot := by
  unfold stack
  rw [hpop]
  dsimp only
  rw [dif_pos hlt, if_neg Bool.false_ne_true, hsaved]
  rfl

theorem Stacked.known_source (h : s.Stacked) {slot : Slot} (hknown : s.value slot ≠ .unknown) :
    s.effectiveSnapshot.inheritedSources slot = (s.source slot).val := by
  simp only [effectiveSnapshot]
  cases hi : s.inheritedSources (s.source slot) with
  | none => rfl
  | some n =>
    refine absurd ?_ hknown
    rw [value, h.sources _ n hi]
    rfl

end VoyttyColorState

/-- A push, colour commands and a pop of the same slot give back the colours of the push, and the
custom cursor where it was custom; the stack is never deeper than what it holds. -/
theorem color_stack_restores (v : Vendor) (s t : VoyttyColorState) (push pop slot : Nat)
    (hs : ReflTransGen ColorStep .default s) (hpush : s.stackSlot true push = some slot)
    (hlt : slot < 10) (ht : ReflTransGen (Recolor v) (s.stack true push) t)
    (hpop : t.stackSlot false pop = some slot) :
    (t.stack false pop).effectiveSnapshot.profile = s.effectiveSnapshot.profile ∧
    (t.stack false pop).effectiveSnapshot.reverse = s.effectiveSnapshot.reverse ∧
    (t.stack false pop).effectiveSnapshot.inheritedSources =
      s.effectiveSnapshot.inheritedSources ∧
    ((s.overrides 258).isSome ∨ (s.overrides 259).isSome →
      (t.stack false pop).effectiveSnapshot.customCursor = s.effectiveSnapshot.customCursor) ∧
    s.depth ≤ s.stored ∧ s.stored ≤ 10 ∧ ∀ i : Fin 10, i.val < s.depth → (s.saved i).isSome := by
  have hstacked := VoyttyColorState.run_stacked hs
  obtain ⟨hsaved, hbase, hreverse⟩ := VoyttyColorState.push_saves hpush hlt
  have hkeeps := VoyttyColorState.keeps_recolors ht
  have hsame : t.reverse = s.reverse := hkeeps.reverse.trans hreverse
  have hsource : t.source = s.source := by
    funext slot
    unfold VoyttyColorState.source
    rw [hsame]
  rw [VoyttyColorState.pop_restores hpop hlt ((congrFun hkeeps.saved _).trans hsaved)]
  obtain ⟨hprofile, hrev, hcursor, hsources⟩ :=
    t.restore_effectiveSnapshot s.effectiveSnapshot
  refine ⟨?_, ?_, ?_, ?_, hstacked.depth, hstacked.stored, hstacked.filled⟩
  · rw [hprofile, hkeeps.base, hbase]
    rfl
  · rw [hrev, hsame]
    rfl
  · funext k
    rw [hsources]
    split
    · rfl
    · rename_i hknown
      rw [hsource, hstacked.known_source hknown]
  · intro hcustom
    rw [hcursor]
    simpa [VoyttyColorState.effectiveSnapshot] using hcustom

def redCursor : VoyttyColorState := VoyttyColorState.default.set 258 (some (.rgb 255 0 0))

/-- A library that knows no colour. -/
def plainVendor : Vendor :=
  ⟨fun _ => none, fun _ => none, fun _ => none, fun _ => none, fun _ => none, fun _ => none, id⟩

/-- The cursor colour is reset between the push and the pop. -/
theorem color_stack_restores_cursor :
    (((redCursor.stack true 0).set 258 none).stack false 0).effectiveSnapshot.profile =
        redCursor.effectiveSnapshot.profile ∧
      (((redCursor.stack true 0).set 258 none).stack false 0).effectiveSnapshot.customCursor =
        redCursor.effectiveSnapshot.customCursor := by
  have hosc : (redCursor.stack true 0).osc plainVendor 112 [] [] =
      some ⟨[], (redCursor.stack true 0).set 258 none⟩ := rfl
  obtain ⟨hprofile, -, -, hcursor, -⟩ := color_stack_restores plainVendor redCursor
    ((redCursor.stack true 0).set 258 none) 0 0 0
    (.single (.edit (.set _ 258 _ (by decide)))) rfl (by decide)
    (.single (.osc hosc (by decide))) rfl
  exact ⟨hprofile, hcursor (.inl rfl)⟩

/-- Nothing is overridden at the push, and the pop makes the cursor custom. -/
theorem popped_cursor_is_custom :
    VoyttyColorState.default.effectiveSnapshot.customCursor = false ∧
      ((VoyttyColorState.default.stack true 0).stack false 0).effectiveSnapshot.customCursor =
        true := by
  refine ⟨rfl, ?_⟩
  rw [VoyttyColorState.pop_restores rfl (by decide)
    (VoyttyColorState.push_saves rfl (by decide)).1]
  exact (VoyttyColorState.restore_effectiveSnapshot _ _).2.2.1

end Voytty.Terminal
