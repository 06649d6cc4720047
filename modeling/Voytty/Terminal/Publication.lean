import Voytty.Terminal.History
import Voytty.Terminal.Runs

/-!
# What a terminal publishes

Readers see a model at the boundaries `ingest` shows it at and after every
command. `Tracks a t` relates the model to the last observation `a`: a held
batch shows `a`'s view, and behind it the model is at a later revision or still
has that view. Every step keeps it, so a batch freezes what is published, and
over a run a published revision has one view.
-/

namespace Voytty.Terminal

open Voytty.Lib

variable {R : Type} {em : Emulator R}

/-! ## Views -/

/-- Everything published about the screen. -/
structure View where
  checkpoint : TerminalCheckpoint
  scrollMetrics : Option TerminalScrollMetrics
  deriving DecidableEq

namespace TerminalModel

variable (t : TerminalModel R)

def view : View := ⟨t.checkpoint, t.liveScrollMetrics⟩

def unheld : TerminalModel R := { t with synchronized := none }

theorem publishedRevision_view : t.publishedRevision = t.view.checkpoint.revision := by
  unfold publishedRevision view checkpoint
  cases t.synchronized <;> rfl

variable {t t' : TerminalModel R}

theorem unheld_live (h : t.synchronized = none) : t.unheld = t := by
  unfold unheld
  rw [← h]

theorem view_held (h : t'.synchronized = t.synchronized) (hs : t.synchronized ≠ none) :
    t'.view = t.view := by
  obtain ⟨held, hheld⟩ := Option.ne_none_iff_exists'.mp hs
  simp [view, checkpoint, liveScrollMetrics, h, hheld]

theorem snapshot_view (h : t.view = t'.view) : t.snapshot = t'.snapshot := by
  have hc : t.checkpoint = t'.checkpoint := congrArg View.checkpoint h
  have hm : t.liveScrollMetrics = t'.liveScrollMetrics := congrArg View.scrollMetrics h
  simp only [snapshot, hc, hm]

theorem capture_view (h : t.view = t'.view) (checkpoint : Option TerminalCheckpoint) :
    t.capture checkpoint = t'.capture checkpoint := by
  have hc : t.checkpoint = t'.checkpoint := congrArg View.checkpoint h
  have hm : t.liveScrollMetrics = t'.liveScrollMetrics := congrArg View.scrollMetrics h
  have hr : t.publishedRevision = t'.publishedRevision := by
    rw [publishedRevision_view, publishedRevision_view, h]
  simp only [capture, updateFromProjection, hc, hm, hr]

end TerminalModel

/-- `b` may be seen next after `a`: a held batch shows what `a` shows, and a view is replaced
only under a later revision. -/
structure Follows (a b : TerminalModel R) : Prop where
  held : b.synchronized ≠ none → b.view = a.view
  batch : ∀ held, b.synchronized = some held → a.synchronized = none ∨ a.synchronized = some held
  later : a.publishedRevision < b.publishedRevision ∨ b.view = a.view

/-- The model `t` since the observation `a`. -/
structure Tracks (a t : TerminalModel R) : Prop where
  held : t.synchronized ≠ none → t.view = a.view
  batch : ∀ held, t.synchronized = some held → a.synchronized = none ∨ a.synchronized = some held
  backed : a.publishedRevision < t.revision ∨ t.unheld.view = a.view

/-- The same, at a later revision. -/
structure Ahead (a t : TerminalModel R) : Prop where
  held : t.synchronized ≠ none → t.view = a.view
  batch : ∀ held, t.synchronized = some held → a.synchronized = none ∨ a.synchronized = some held
  later : a.publishedRevision < t.revision

section Tracking

variable {a t t' : TerminalModel R}

theorem Ahead.tracks (h : Ahead a t) : Tracks a t := ⟨h.held, h.batch, .inl h.later⟩

theorem Ahead.same (h : Ahead a t) (hr : t'.revision = t.revision)
    (hs : t'.synchronized = t.synchronized) : Ahead a t' where
  held := fun hne => by
    rw [hs] at hne
    rw [TerminalModel.view_held hs hne, h.held hne]
  batch := fun held hheld => h.batch held (hs ▸ hheld)
  later := hr ▸ h.later

theorem unheld_revision (t : TerminalModel R) : t.unheld.view.checkpoint.revision = t.revision := rfl

theorem Tracks.published_le (h : Tracks a t) : a.publishedRevision ≤ t.revision := by
  rcases h.backed with h | h
  · exact h.le
  · rw [a.publishedRevision_view, ← h, unheld_revision]

theorem Tracks.advance (h : Tracks a t) (hr : t.revision < t'.revision)
    (hs : t'.synchronized = t.synchronized) : Ahead a t' where
  held := fun hne => by
    rw [hs] at hne
    rw [TerminalModel.view_held hs hne, h.held hne]
  batch := fun held hheld => h.batch held (hs ▸ hheld)
  later := h.published_le.trans_lt hr

theorem Tracks.finish (h : Tracks a t) : Tracks a t.finishSynchronizedOutput.2 where
  held := fun hne => absurd rfl hne
  batch := by simp [TerminalModel.finishSynchronizedOutput]
  backed := h.backed

theorem Tracks.follows (h : Tracks a t) : Follows a t where
  held := h.held
  batch := h.batch
  later := by
    cases hs : t.synchronized with
    | none =>
      rcases h.backed with hb | hb
      · exact .inl (publishedRevision_live hs ▸ hb)
      · exact .inr (TerminalModel.unheld_live hs ▸ hb)
    | some held => exact .inr (h.held (by simp [hs]))

theorem Tracks.self (h : Tracks a t) : Tracks t t where
  held := fun _ => rfl
  batch := fun _ hheld => .inr hheld
  backed := by
    cases hs : t.synchronized with
    | none => exact .inr (by rw [TerminalModel.unheld_live hs])
    | some held =>
      have hview := h.held (by simp [hs])
      rw [TerminalModel.publishedRevision_view, hview, ← TerminalModel.publishedRevision_view]
      exact h.backed

theorem Tracks.live (h : t.synchronized = none) : Tracks t t :=
  ⟨fun _ => rfl, fun _ hheld => .inr hheld, .inr (by rw [TerminalModel.unheld_live h])⟩

theorem Tracks.freeze (h : t.synchronized = none) (deadline : Nat) :
    Tracks t { t with synchronized := some ⟨t.checkpoint, t.liveScrollMetrics, deadline⟩ } where
  held := fun _ => rfl
  batch := fun _ _ => .inl h
  backed := .inr (congrArg TerminalModel.view (TerminalModel.unheld_live h))

end Tracking

/-! ## Observations -/

/-- The observations `seen` after `t`, each following the one before; `a` is the last. -/
inductive Shown (t : TerminalModel R) : List (TerminalModel R) → TerminalModel R → Prop where
  | nil : Shown t [] t
  | snoc {seen : List (TerminalModel R)} {a b : TerminalModel R} (h : Shown t seen a)
      (hb : Follows a b) : Shown t (seen ++ [b]) b

theorem Shown.trans {t a b : TerminalModel R} {seen seen' : List (TerminalModel R)}
    (h : Shown t seen a) (h' : Shown a seen' b) : Shown t (seen ++ seen') b := by
  induction h' with
  | nil => simpa using h
  | snoc _ hb ih => rw [← List.append_assoc]; exact ih.snoc hb

/-- What was shown during a call since `t`. -/
def Observing (t : TerminalModel R) (g : Ingest R) : Prop :=
  ∃ a, Shown t g.observed a ∧ Tracks a g.model

section Calls

variable {t : TerminalModel R} {g : Ingest R}

theorem Observing.publish (h : Observing t g) (hlive : g.model.synchronized = none) :
    Observing t g.publish := by
  obtain ⟨a, hs, ha⟩ := h
  exact ⟨g.model, hs.snoc ha.follows, .live hlive⟩

theorem Observing.release (h : Observing t g) :
    Observing t (g.setModel g.model.finishSynchronizedOutput.2).publish := by
  obtain ⟨a, hs, ha⟩ := h
  exact Observing.publish ⟨a, hs, ha.finish⟩ rfl

theorem Observing.expire (h : Observing t g) (clock : Nat → Nat) :
    Observing t (g.expire clock) := by
  rcases expire_cases g clock with he | he <;> rw [he]
  · exact h
  · exact Observing.release (g := { g with tick := g.tick + 1 }) h

variable {a : TerminalModel R}

theorem Ahead.siblings (h : Ahead a g.model) (enabled : Bool) (modes : List Nat) :
    Ahead a (g.applySiblings em enabled modes).model :=
  h.same (commitMetadata_revision _) (commitMetadata_synchronized _)

theorem Observing.boundary (hs : Shown t g.observed a) (ha : Ahead a g.model)
    (settled : ∀ r, g.model.engine.colors.commit r = g.model.engine.colors) {clock : Nat → Nat}
    {boundary : Option PresentationBoundary} {r : Except TerminalError Unit × Ingest R}
    (h : Bounded em clock g boundary r) : Observing t r.2 := by
  have hg : Observing t g := ⟨a, hs, ha.tracks⟩
  have hshown : Shown t (g.frozen clock).observed g.model := hs.snoc ha.tracks.follows
  cases h with
  | absent => exact hg
  | reset => exact hg.release
  | exhausted hlive => exact ⟨g.model, hshown, .freeze hlive _⟩
  | begins hlive =>
    have htracks : Tracks g.model (g.frozen clock).model := .freeze hlive _
    refine ⟨g.model, hshown, ?_⟩
    rw [applySiblings_nil (g := g.frozen clock) settled]
    exact ⟨htracks.held, htracks.batch, htracks.backed⟩
  | siblings hlive modes =>
    have htracks : Tracks g.model (g.frozen clock).model := .freeze hlive _
    have hahead : Ahead g.model { (g.frozen clock).model with revision := g.model.revision + 1 } :=
      htracks.advance (Nat.lt_succ_self _) rfl
    exact ⟨g.model, hshown, (hahead.siblings (g := Ingest.setModel _ _) true modes).tracks⟩
  | held _ modes => exact ⟨a, hs, (ha.siblings true modes).tracks⟩
  | ends modes =>
    have hsib : Observing t (g.applySiblings em false modes) :=
      ⟨a, hs, (ha.siblings false modes).tracks⟩
    exact hsib.release

theorem Observing.round (h : Observing t g) {clock : Nat → Nat} {bytes : List UInt8}
    {r : Except TerminalError (List UInt8) × Ingest R} (hr : Rounded em clock g bytes r) :
    Observing t r.2 := by
  obtain ⟨a, hs, ha⟩ := h.expire clock
  have hinstall : ∀ m : Machine R, Ahead a
      ((g.expire clock).install ((g.expire clock).model.revision + 1) m).model := fun m =>
    ha.advance (Nat.lt_succ_self _) rfl
  cases hr with
  | exhausted => exact ⟨a, hs, ha⟩
  | @overflow m _ => exact ⟨a, hs, (hinstall m).tracks⟩
  | @failed _ m _ _ _ hb | @passed _ m _ _ hb =>
    exact Observing.boundary (g := (g.expire clock).settled _ m) hs
      ((hinstall m).same (commitMetadata_revision _) (commitMetadata_synchronized _))
      (commitMetadata_settled _) (.of_eq hb)

theorem Observing.ingest (h : Tracks t t) (clock : Nat → Nat) (bytes : List UInt8) :
    Observing t (t.ingestObserving em clock bytes).2 := by
  have hr : Observing t (Ingest.rounds em clock bytes.length bytes { model := t }).2 :=
    rounds_rule (K := fun _ => Observing t) (Q := fun _ => Observing t) id
      (fun h hr => .always (h.round (.of_eq hr))) _ ⟨t, .nil, h⟩
  rcases (ingestObserving_ingested em t clock bytes).shown with ho | ⟨-, hlive, ho⟩ <;> rw [ho]
  · exact hr
  · exact hr.publish hlive

end Calls

/-! ## Runs -/

section Runs

variable (em) in
/-- What readers may see of a command: the models shown during it and the one after it. -/
def TerminalModel.observe (t : TerminalModel R) (op : ModelOp) : List (TerminalModel R) :=
  match op with
  | .ingest clock bytes => (t.ingestObserving em clock bytes).2.observed ++ [t.apply em op]
  | _ => [t.apply em op]

variable (em) in
def TerminalModel.observations (t : TerminalModel R) : List ModelOp → List (TerminalModel R)
  | [] => []
  | op :: ops => t.observe em op ++ (t.apply em op).observations ops

variable {t : TerminalModel R}

theorem Tracks.updateBaseColors (h : Tracks t t) (base : TerminalColorProfile) :
    Tracks t (t.updateBaseColors base).2 := by
  rcases updateBaseColors_cases t base with hu | ⟨-, hu⟩ <;> rw [hu]
  · exact h
  · exact ⟨fun hne => TerminalModel.view_held rfl hne, h.batch,
      .inl (Nat.lt_succ_of_le h.published_le)⟩

theorem Tracks.resize (h : Tracks t t) (size : TerminalSize) : Tracks t (t.resize em size).2 := by
  unfold TerminalModel.resize
  split
  · exact h
  rename_i hnext
  obtain rfl := preflightResize_ok hnext
  have hlater : t.publishedRevision < t.revision + 1 := Nat.lt_succ_of_le h.published_le
  exact ⟨fun hne => absurd rfl hne, by simp [TerminalModel.finishSynchronizedOutput], .inl hlater⟩

theorem Tracks.observe (h : Tracks t t) (op : ModelOp) :
    Shown t (t.observe em op) (t.apply em op) ∧ Tracks (t.apply em op) (t.apply em op) := by
  have hone : Tracks t (t.apply em op) → Shown t [t.apply em op] (t.apply em op) := fun h' =>
    Shown.nil.snoc h'.follows
  cases op with
  | ingest clock bytes =>
    obtain ⟨a, hs, ha⟩ : Observing t (t.ingestObserving em clock bytes).2 := .ingest h clock bytes
    exact ⟨hs.snoc ha.follows, ha.self⟩
  | resize size => exact ⟨hone (h.resize size), (h.resize size).self⟩
  | updateBaseColors base => exact ⟨hone (h.updateBaseColors base), (h.updateBaseColors base).self⟩
  | expire now =>
    have hexpire : Tracks t (t.apply em (.expire now)) := by
      rcases expireSynchronizedOutput_cases t now with he | he <;> simp only [TerminalModel.apply, he]
      · exact h
      · exact h.finish
    exact ⟨hone hexpire, hexpire.self⟩
  | finish => exact ⟨hone h.finish, h.finish.self⟩

theorem Tracks.observations (h : Tracks t t) (ops : List ModelOp) :
    ∃ a, Shown t (t.observations em ops) a := by
  induction ops generalizing t with
  | nil => exact ⟨t, .nil⟩
  | cons op ops ih =>
    obtain ⟨hs, hnext⟩ : Shown t (t.observe em op) (t.apply em op) ∧ _ := h.observe op
    obtain ⟨a, ha⟩ := ih hnext
    exact ⟨a, hs.trans ha⟩

variable {a : TerminalModel R} {held : SynchronizedOutput} {g : Ingest R}

theorem Shown.getLast {seen : List (TerminalModel R)} (h : Shown t seen a) :
    (t :: seen).getLast? = some a := by
  cases h with
  | nil => rfl
  | snoc => rw [← List.cons_append, List.getLast?_concat]

theorem Shown.isChain {seen : List (TerminalModel R)} (h : Shown t seen a) :
    (t :: seen).IsChain Follows := by
  induction h with
  | nil => exact .singleton t
  | @snoc seen a b hs hb ih =>
    rw [← List.cons_append, List.isChain_append]
    refine ⟨ih, .singleton b, fun x hx y hy => ?_⟩
    rw [hs.getLast] at hx
    obtain rfl := Option.some.inj hx
    obtain rfl := Option.some.inj hy
    exact hb

/-- `b` is published at or after `a`: one revision has one view. -/
def Publishes (a b : TerminalModel R) : Prop :=
  a.publishedRevision < b.publishedRevision ∨ b.view = a.view

instance : Trans (Publishes (R := R)) Publishes Publishes where
  trans := fun {a b c} hab hbc => by
    unfold Publishes at *
    simp only [TerminalModel.publishedRevision_view] at *
    rcases hab with hab | hab
    · rcases hbc with hbc | hbc
      · exact .inl (hab.trans hbc)
      · exact .inl (hbc ▸ hab)
    · rcases hbc with hbc | hbc
      · exact .inl (hab ▸ hbc)
      · exact .inr (hbc.trans hab)

theorem Publishes.snapshot {b : TerminalModel R} (h : Publishes a b) :
    a.publishedRevision ≤ b.publishedRevision ∧
      (a.publishedRevision = b.publishedRevision → a.snapshot = b.snapshot) := by
  rcases h with h | h
  · exact ⟨h.le, fun he => absurd he h.ne⟩
  · refine ⟨?_, fun _ => (TerminalModel.snapshot_view h).symm⟩
    rw [TerminalModel.publishedRevision_view, TerminalModel.publishedRevision_view, h]

/-- `b`, seen during a batch, shows what `a` showed and answers no history query. -/
structure Frozen (a b : TerminalModel R) : Prop where
  revision : b.publishedRevision = a.publishedRevision
  snapshot : b.snapshot = a.snapshot
  capture : ∀ checkpoint, b.capture checkpoint = a.capture checkpoint
  metrics : b.liveScrollMetrics = a.liveScrollMetrics
  history : ∀ query, b.historyWindow query = none
  batch : a.synchronized = none ∨ b.synchronized = a.synchronized

theorem Frozen.of_view {b : TerminalModel R} (hheld : b.synchronized ≠ none)
    (hview : b.view = a.view) (hbatch : a.synchronized = none ∨ b.synchronized = a.synchronized) :
    Frozen a b where
  revision := by rw [TerminalModel.publishedRevision_view, TerminalModel.publishedRevision_view, hview]
  snapshot := TerminalModel.snapshot_view hview
  capture := TerminalModel.capture_view hview
  metrics := congrArg View.scrollMetrics hview
  history := fun query => by
    unfold TerminalModel.historyWindow
    rw [if_pos (Option.isSome_iff_ne_none.mpr hheld)]
  batch := hbatch

/-- While a batch is held, every observation has the view of the one before the batch. -/
theorem frozen_chain {batch : List (TerminalModel R)} (h : (a :: batch).IsChain Follows)
    (hheld : ∀ b ∈ batch, b.synchronized ≠ none) :
    ∀ b ∈ batch, Frozen a b := by
  induction batch generalizing a with
  | nil => simp
  | cons c batch ih =>
    obtain ⟨hac, hchain⟩ := List.isChain_cons_cons.mp h
    have hc := hheld c List.mem_cons_self
    have hbatch : a.synchronized = none ∨ c.synchronized = a.synchronized := by
      obtain ⟨held, hsome⟩ := Option.ne_none_iff_exists'.mp hc
      exact (hac.batch held hsome).imp_right fun h => hsome.trans h.symm
    have hfrozen : Frozen a c := .of_view hc (hac.held hc) hbatch
    intro b hb
    rcases List.mem_cons.mp hb with rfl | hb
    · exact hfrozen
    · have hcb := ih hchain (fun b hb => hheld b (List.mem_cons_of_mem _ hb)) b hb
      have hsync := hcb.batch.resolve_left hc
      exact ⟨hcb.revision.trans hfrozen.revision, hcb.snapshot.trans hfrozen.snapshot,
        fun p => (hcb.capture p).trans (hfrozen.capture p), hcb.metrics.trans hfrozen.metrics,
        hcb.history, hsync ▸ hbatch⟩

/-! ### The end of a batch -/

variable (em) in
/-- A round over `bytes` ends the batch: its deadline has come, or the boundary the round stops
at is a reset or turns synchronized output off. -/
def Ingest.Ends (clock : Nat → Nat) (g : Ingest R) (bytes : List UInt8) (held : SynchronizedOutput) :
    Prop :=
  held.deadline ≤ clock g.tick ∨
    ∃ rest m, Machine.processUntilBoundary em bytes (g.expire clock).machine = (.ok rest, m) ∧
      (m.policy.boundary = some .reset ∨
        ∃ modes, m.policy.boundary = some (.synchronizedOutput false modes))

variable (em) in
/-- The rounds of a chunk: `rest` is left and `g'` reached. -/
inductive RoundsTo (clock : Nat → Nat) (bytes : List UInt8) (g : Ingest R) :
    List UInt8 → Ingest R → Prop where
  | refl : RoundsTo clock bytes g bytes g
  | round {rest rest' : List UInt8} {g' g'' : Ingest R} (h : RoundsTo clock bytes g rest g')
      (hround : g'.round em clock rest = (.ok rest', g'')) : RoundsTo clock bytes g rest' g''

variable (em) in
/-- A command ends the batch `held`. -/
def TerminalModel.Ends (t : TerminalModel R) (held : SynchronizedOutput) : ModelOp → Prop
  | .ingest clock bytes => ∃ rest g, RoundsTo em clock bytes { model := t } rest g ∧
      g.model.synchronized = some held ∧ g.Ends em clock rest held
  | .resize size => ∃ next, t.preflightResize size = .ok next
  | .updateBaseColors _ => False
  | .expire now => held.deadline ≤ now
  | .finish => True

theorem expire_before {now : Nat} (h : t.synchronized = some held) (hnow : ¬ held.deadline ≤ now) :
    t.expireSynchronizedOutput now = (false, t) := by
  unfold TerminalModel.expireSynchronizedOutput TerminalModel.presentationDeadline
  rw [if_neg (by simpa [h] using hnow)]

theorem Bounded.keeps {clock : Nat → Nat} {boundary : Option PresentationBoundary}
    {r : Except TerminalError Unit × Ingest R} (h : Bounded em clock g boundary r)
    (hs : g.model.synchronized = some held) : r.2.model.synchronized = some held ∨
      boundary = some .reset ∨ ∃ modes, boundary = some (.synchronizedOutput false modes) := by
  cases h with
  | absent => exact .inl hs
  | reset => exact .inr (.inl rfl)
  | exhausted hlive | begins hlive | siblings hlive => exact nomatch hlive.symm.trans hs
  | held => exact .inl ((commitMetadata_synchronized _).trans hs)
  | ends modes => exact .inr (.inr ⟨modes, rfl⟩)

theorem round_keeps {clock : Nat → Nat} {bytes : List UInt8}
    {r : Except TerminalError (List UInt8) × Ingest R} (hr : Rounded em clock g bytes r)
    (h : g.model.synchronized = some held) :
    r.2.model.synchronized = some held ∨ g.Ends em clock bytes held := by
  by_cases hdue : held.deadline ≤ clock g.tick
  · exact .inr (.inl hdue)
  have hexpire : (g.expire clock).model.synchronized = some held := by
    rw [expire_model, expire_before h hdue, h]
  have hsettled : ∀ revision m, ((g.expire clock).settled revision m).model.synchronized =
      some held := fun _ _ => (commitMetadata_synchronized _).trans hexpire
  cases hr with
  | exhausted => exact .inl hexpire
  | overflow _ => exact .inl hexpire
  | @failed _ m _ _ hp hb | @passed _ m _ hp hb =>
    exact ((Bounded.of_eq hb).keeps (hsettled _ m)).imp_right fun hend => .inr ⟨_, m, hp, hend⟩

theorem rounds_keep (clock : Nat → Nat) (fuel : Nat) (bytes : List UInt8)
    (h : g.model.synchronized = some held) :
    (Ingest.rounds em clock fuel bytes g).2.model.synchronized = some held ∨
      ∃ rest g', RoundsTo em clock bytes g rest g' ∧ g'.model.synchronized = some held ∧
        g'.Ends em clock rest held := by
  let E := ∃ rest g', RoundsTo em clock bytes g rest g' ∧ g'.model.synchronized = some held ∧
    g'.Ends em clock rest held
  refine rounds_rule
    (K := fun rest g' => RoundsTo em clock bytes g rest g' ∧ g'.model.synchronized = some held ∨ E)
    (Q := fun _ g' => g'.model.synchronized = some held ∨ E) (·.imp_left And.right)
    (fun {rest g' r} hk hr => ?_) fuel (.inl ⟨.refl, h⟩)
  rcases hk with ⟨hto, hg'⟩ | hends
  · rcases round_keeps (.of_eq hr) hg' with hkeeps | hends
    · rcases r with ⟨_ | _, _⟩
      · exact .inl hkeeps
      · exact .inl ⟨hto.round hr, hkeeps⟩
    · rcases r with ⟨_ | _, _⟩ <;> exact .inr ⟨_, g', hto, hg', hends⟩
  · rcases r with ⟨_ | _, _⟩ <;> exact .inr hends

/-- A batch lasts until a command ends it. -/
theorem apply_keeps (op : ModelOp) (h : t.synchronized = some held) :
    (t.apply em op).synchronized = some held ∨ t.Ends em held op := by
  cases op with
  | ingest clock bytes =>
    have hr : _ ∨ t.Ends em held (.ingest clock bytes) :=
      rounds_keep (g := { model := t }) clock bytes.length bytes h
    rwa [← (ingestObserving_ingested em t clock bytes).model] at hr
  | resize size =>
    unfold TerminalModel.apply TerminalModel.resize
    dsimp only
    split
    · exact .inl h
    · exact .inr ⟨_, ‹_›⟩
  | updateBaseColors base =>
    rcases updateBaseColors_cases t base with hu | ⟨-, hu⟩ <;> simp only [TerminalModel.apply, hu] <;>
      exact .inl h
  | expire now =>
    by_cases hdue : held.deadline ≤ now
    · exact .inr hdue
    · exact .inl (by simp [TerminalModel.apply, expire_before h hdue, h])
  | finish => exact .inr trivial

end Runs

/-- While a batch is held nothing published changes and no history is read, until a reset, a
disable, a resize, the deadline or the end of the stream; over a run the published revision never
decreases and has one snapshot; a due batch is released by an expiry, and none survives `finish`. -/
theorem synchronized_output_freezes (em : Emulator R) (size : TerminalSize) (scrollbackRows : Nat)
    (t : TerminalModel R) (hnew : TerminalModel.new em size scrollbackRows = .ok t)
    (ops : List ModelOp) :
    (∀ a batch, a :: batch <:+: t :: t.observations em ops →
      (∀ b ∈ batch, b.synchronized ≠ none) → ∀ b ∈ batch, Frozen a b) ∧
    (t :: t.observations em ops).Pairwise (fun a b =>
      a.publishedRevision ≤ b.publishedRevision ∧
        (a.publishedRevision = b.publishedRevision → a.snapshot = b.snapshot)) ∧
    (∀ held, (ops.foldl (·.apply em) t).synchronized = some held →
      (∀ op, ((ops.foldl (·.apply em) t).apply em op).synchronized = some held ∨
        (ops.foldl (·.apply em) t).Ends em held op) ∧
      ∀ now, held.deadline ≤ now →
        ((ops.foldl (·.apply em) t).apply em (.expire now)).synchronized = none) ∧
    ((ops.foldl (·.apply em) t).apply em .finish).synchronized = none := by
  have hlive := (new_ingress hnew).2.2.1
  obtain ⟨a, hshown⟩ : ∃ a, Shown t (t.observations em ops) a := (Tracks.live hlive).observations ops
  have hchain := hshown.isChain
  refine ⟨fun a batch hinfix => frozen_chain <| List.IsChain.infix hchain hinfix, ?_, fun held hheld =>
    ⟨fun op => apply_keeps op hheld, fun now hdue => ?_⟩, rfl⟩
  · have hpublishes : (t :: t.observations em ops).IsChain Publishes :=
      hchain.imp fun _ _ h => h.later
    exact (List.isChain_iff_pairwise.mp hpublishes).imp Publishes.snapshot
  · simp [TerminalModel.apply, TerminalModel.expireSynchronizedOutput,
      TerminalModel.presentationDeadline, hheld, hdue, TerminalModel.finishSynchronizedOutput]

/-- `ESC [ ? 2026 h`. -/
def beginBatch : List UInt8 := [0x1b, 0x5b, 0x3f, 0x32, 0x30, 0x32, 0x36, 0x68]

theorem synchronized_output_freezes_typewriter :
    ∃ t held, TerminalModel.new typewriter ⟨24, 80⟩ 100 = .ok t ∧
      ([ModelOp.ingest id beginBatch, .ingest id [0x61]].foldl (·.apply typewriter) t).synchronized =
        some held ∧
      ∀ now, held.deadline ≤ now →
        (([ModelOp.ingest id beginBatch, .ingest id [0x61]].foldl (·.apply typewriter) t).apply
          typewriter (.expire now)).synchronized = none :=
  ⟨_, _, rfl, rfl, ((synchronized_output_freezes typewriter ⟨24, 80⟩ 100 _ rfl
    [.ingest id beginBatch, .ingest id [0x61]]).2.2.1 _ rfl).2⟩

end Voytty.Terminal
