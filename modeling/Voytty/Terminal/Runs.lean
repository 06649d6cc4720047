import Voytty.Terminal.Dispatch
import Voytty.Terminal.Model

/-!
# Runs of the terminal model

`ModelOp` lists what callers do to a model. `EngineLaw` says which properties of
the engine survive everything the model does to it; any such property holds
throughout a run (`ModelInv`), and so does the order of colour stamps: what was
published earlier never has a later stamp, and equal stamps mean equal colours
(`Ordered`). A held batch is a view of an earlier sound model.
-/

namespace Voytty.Terminal

open Voytty.Lib Relation

variable {R : Type} {em : Emulator R}

/-! ## What a call can do -/

section Outcomes

variable {g : Ingest R}

theorem expire_model (g : Ingest R) (clock : Nat → Nat) :
    (g.expire clock).model = (g.model.expireSynchronizedOutput (clock g.tick)).2 := by
  unfold Ingest.expire
  dsimp only
  split <;> rfl

theorem expire_cases (g : Ingest R) (clock : Nat → Nat) :
    g.expire clock = { g with tick := g.tick + 1 } ∨
      g.expire clock =
        (({ g with tick := g.tick + 1 } : Ingest R).setModel
          g.model.finishSynchronizedOutput.2).publish := by
  unfold Ingest.expire TerminalModel.expireSynchronizedOutput
  by_cases hdue : g.model.presentationDeadline.any (· ≤ clock g.tick)
  · have hsome : g.model.synchronized.isSome = true := by
      unfold TerminalModel.presentationDeadline at hdue
      cases hsync : g.model.synchronized <;> simp [hsync] at hdue ⊢
    simp only [hdue, ↓reduceIte, TerminalModel.finishSynchronizedOutput, hsome]
    exact .inr rfl
  · rw [if_neg hdue]
    exact .inl rfl

def Ingest.machine (g : Ingest R) : Machine R :=
  ⟨g.model.ingress, { g.model.engine with gridInput := false }, g.output⟩

/-- What the machine left, committed at a revision and with its boundary taken. -/
def Ingest.settled (g : Ingest R) (revision : Nat) (m : Machine R) : Ingest R :=
  ((g.install revision m).setModel (g.install revision m).model.commitMetadata).takeBoundary

variable (em) in
/-- The outcomes of a round: no revision is left, a reply does not fit, or the boundary after
the handled bytes is applied. -/
inductive Rounded (clock : Nat → Nat) (g : Ingest R) (bytes : List UInt8) :
    Except TerminalError (List UInt8) × Ingest R → Prop where
  | exhausted {e : TerminalError} (h : (g.expire clock).model.nextRevision = .error e) :
      Rounded clock g bytes (.error e, g.expire clock)
  | overflow {m : Machine R}
      (h : Machine.processUntilBoundary em bytes (g.expire clock).machine =
        (.error .replyOverflow, m)) :
      Rounded clock g bytes
        (.error .replyOverflow, (g.expire clock).install ((g.expire clock).model.revision + 1) m)
  | failed {rest : List UInt8} {m : Machine R} {e : TerminalError} {g' : Ingest R}
      (h : Machine.processUntilBoundary em bytes (g.expire clock).machine = (.ok rest, m))
      (hb : Ingest.applyBoundary em clock
        ((g.expire clock).settled ((g.expire clock).model.revision + 1) m) m.policy.boundary =
          (.error e, g')) : Rounded clock g bytes (.error e, g')
  | passed {rest : List UInt8} {m : Machine R} {g' : Ingest R}
      (h : Machine.processUntilBoundary em bytes (g.expire clock).machine = (.ok rest, m))
      (hb : Ingest.applyBoundary em clock
        ((g.expire clock).settled ((g.expire clock).model.revision + 1) m) m.policy.boundary =
          (.ok (), g')) : Rounded clock g bytes (.ok rest, g')

theorem round_rounded (clock : Nat → Nat) (g : Ingest R) (bytes : List UInt8) :
    Rounded em clock g bytes (g.round em clock bytes) := by
  unfold Ingest.round
  dsimp only
  split
  · exact .exhausted ‹_›
  rename_i revision hrev
  obtain rfl := TerminalModel.nextRevision_ok _ hrev
  split
  · exact .overflow ‹_›
  · rename_i hm
    split
    · rename_i hb
      exact .failed hm hb
    · rename_i hb
      exact .passed hm hb

theorem Rounded.of_eq {clock : Nat → Nat} {bytes : List UInt8}
    {r : Except TerminalError (List UInt8) × Ingest R} (hr : g.round em clock bytes = r) :
    Rounded em clock g bytes r := hr ▸ round_rounded clock g bytes

/-- A batch just begun. -/
def Ingest.frozen (g : Ingest R) (clock : Nat → Nat) : Ingest R :=
  let held : SynchronizedOutput :=
    ⟨g.model.checkpoint, g.model.liveScrollMetrics, clock g.tick + synchronizedOutputLimit⟩
  { g with
    model := { g.model with synchronized := some held }
    observed := g.observed ++ [g.model]
    tick := g.tick + 1 }

variable (em) in
/-- The outcomes of a boundary: a batch begins where none is held, its sibling modes, if any, at
a revision of their own; a batch goes on; or it ends. -/
inductive Bounded (clock : Nat → Nat) (g : Ingest R) :
    Option PresentationBoundary → Except TerminalError Unit × Ingest R → Prop where
  | absent : Bounded clock g none (.ok (), g)
  | reset : Bounded clock g (some .reset)
      (.ok (), (g.setModel g.model.finishSynchronizedOutput.2).publish)
  | exhausted (h : g.model.synchronized = none) (modes : List Nat) :
      Bounded clock g (some (.synchronizedOutput true modes))
        (.error .revisionOverflow, g.frozen clock)
  | begins (h : g.model.synchronized = none) :
      Bounded clock g (some (.synchronizedOutput true []))
        (.ok (), (g.frozen clock).applySiblings em true [])
  | siblings (h : g.model.synchronized = none) (modes : List Nat) :
      Bounded clock g (some (.synchronizedOutput true modes))
        (.ok (), ((g.frozen clock).setModel { (g.frozen clock).model with
          revision := g.model.revision + 1 }).applySiblings em true modes)
  | held (h : g.model.synchronized ≠ none) (modes : List Nat) :
      Bounded clock g (some (.synchronizedOutput true modes)) (.ok (), g.applySiblings em true modes)
  | ends (modes : List Nat) :
      Bounded clock g (some (.synchronizedOutput false modes))
        (.ok (), ((g.applySiblings em false modes).setModel
          (g.applySiblings em false modes).model.finishSynchronizedOutput.2).publish)

theorem Bounded.of_eq {clock : Nat → Nat} {boundary : Option PresentationBoundary}
    {r : Except TerminalError Unit × Ingest R} (hr : g.applyBoundary em clock boundary = r) :
    Bounded em clock g boundary r := by
  subst hr
  unfold Ingest.applyBoundary
  split
  · exact .absent
  · exact .reset
  rename_i enabled modes
  cases enabled with
  | false => exact .ends modes
  | true =>
    by_cases hlive : g.model.synchronized = none
    · simp only [hlive, Option.isNone_none, and_self, ↓reduceIte]
      unfold Ingest.freeze Ingest.publish
      dsimp only
      by_cases hnil : modes = []
      · subst hnil
        exact .begins hlive
      · rw [if_neg (by simpa using hnil)]
        split <;> rename_i hz <;> split at hz <;> rename_i hnext <;> cases hz
        · rw [TerminalModel.nextRevision_error _ hnext]
          exact .exhausted hlive modes
        · rw [TerminalModel.nextRevision_ok _ hnext]
          exact .siblings hlive modes
    · rw [if_neg fun h => hlive (by simpa using h.2)]
      exact .held hlive modes

/-- What holds after a round: `Q` of a failed call, or `K` of what is left of the chunk. -/
def AfterRound (K : List UInt8 → Ingest R → Prop) (Q : Except TerminalError Unit → Ingest R → Prop) :
    Except TerminalError (List UInt8) × Ingest R → Prop
  | (.error e, g) => Q (.error e) g
  | (.ok rest, g) => K rest g

theorem AfterRound.always {K : Ingest R → Prop} {r : Except TerminalError (List UInt8) × Ingest R}
    (h : K r.2) : AfterRound (fun _ => K) (fun _ => K) r := by
  rcases r with ⟨_ | _, _⟩ <;> exact h

/-- The rule for the rounds of a chunk. -/
theorem rounds_rule {clock : Nat → Nat} {K : List UInt8 → Ingest R → Prop}
    {Q : Except TerminalError Unit → Ingest R → Prop}
    (hdone : ∀ {bytes g}, K bytes g → Q (.ok ()) g)
    (hround : ∀ {bytes g r}, K bytes g → g.round em clock bytes = r → AfterRound K Q r) (fuel : Nat)
    {bytes : List UInt8} (h : K bytes g) :
    Q (Ingest.rounds em clock fuel bytes g).1 (Ingest.rounds em clock fuel bytes g).2 := by
  induction fuel generalizing bytes g with
  | zero => cases bytes <;> exact hdone h
  | succ fuel ih =>
    cases bytes with
    | nil => exact hdone h
    | cons b bytes =>
      unfold Ingest.rounds
      split <;> rename_i hr <;> have hnext := hround h hr
      · exact hnext
      · exact ih hnext

/-- The outcome `o` of a chunk whose rounds give `r`: it may be shown once more. -/
structure Ingested (r : Except TerminalError Unit × Ingest R)
    (o : Except TerminalError TerminalUpdate × Ingest R) : Prop where
  shown : o.2 = r.2 ∨ r.1 = .ok () ∧ r.2.model.synchronized = none ∧ o.2 = r.2.publish
  model : o.2.model = r.2.model
  error : ∀ e, o.1 = .error e ↔ r.1 = .error e
  update : ∀ u, o.1 = .ok u → r.1 = .ok () ∧ u.replies = r.2.output.replies

variable (em) in
theorem ingestObserving_ingested (t : TerminalModel R) (clock : Nat → Nat) (bytes : List UInt8) :
    Ingested (Ingest.rounds em clock bytes.length bytes { model := t })
      (t.ingestObserving em clock bytes) := by
  unfold TerminalModel.ingestObserving
  cases bytes with
  | nil => exact ⟨.inl rfl, rfl, fun _ => ⟨nofun, nofun⟩, fun u hu => by cases hu; exact ⟨rfl, rfl⟩⟩
  | cons b bytes =>
    rw [if_neg (by simp)]
    split <;> rename_i hr <;> rw [hr]
    · exact ⟨.inl rfl, rfl, fun _ => by simp only [Except.error.injEq], nofun⟩
    · dsimp only
      split
      · rename_i hnone
        exact ⟨.inr ⟨rfl, by simpa using hnone, rfl⟩, rfl, fun _ => ⟨nofun, nofun⟩,
          fun u hu => by cases hu; exact ⟨rfl, rfl⟩⟩
      · exact ⟨.inl rfl, rfl, fun _ => ⟨nofun, nofun⟩, fun u hu => by cases hu; exact ⟨rfl, rfl⟩⟩

theorem updateBaseColors_cases (t : TerminalModel R) (base : TerminalColorProfile) :
    (t.updateBaseColors base).2 = t ∨ base.isValid = true ∧ (t.updateBaseColors base).2 =
      { t with
        engine := { t.engine with
          colors := { t.engine.colors with base }.commit (t.revision + 1) }
        revision := t.revision + 1 } := by
  unfold TerminalModel.updateBaseColors
  split
  · exact .inl rfl
  rename_i hvalid
  split
  · exact .inl rfl
  split
  · exact .inl rfl
  · rename_i hnext
    rw [t.nextRevision_ok hnext]
    exact .inr ⟨by simpa using hvalid, rfl⟩

theorem expireSynchronizedOutput_cases (t : TerminalModel R) (now : Nat) :
    (t.expireSynchronizedOutput now).2 = t ∨
      (t.expireSynchronizedOutput now).2 = t.finishSynchronizedOutput.2 := by
  unfold TerminalModel.expireSynchronizedOutput
  split
  · exact .inr rfl
  · exact .inl rfl

theorem preflightResize_ok {t : TerminalModel R} {size : TerminalSize} {next : Nat} (h : t.preflightResize size = .ok next) :
    next = t.revision + 1 := by
  unfold TerminalModel.preflightResize at h
  split at h
  · cases h
  · exact t.nextRevision_ok h

end Outcomes

/-! ## Stamps -/

/-- `b` was published at or after `a`. -/
structure Ordered (a b : TerminalColorSnapshot) : Prop where
  stamp : a.changedAt ≤ b.changedAt
  same : a.changedAt = b.changedAt → a = b

theorem Ordered.refl (a : TerminalColorSnapshot) : Ordered a a := ⟨Nat.le_refl _, fun _ => rfl⟩

theorem Ordered.trans {a b c : TerminalColorSnapshot} (hab : Ordered a b) (hbc : Ordered b c) :
    Ordered a c := by
  refine ⟨hab.stamp.trans hbc.stamp, fun h => ?_⟩
  have h1 := hab.stamp
  have h2 := hbc.stamp
  rw [hab.same (by omega), hbc.same (by omega)]

/-- The colours are those of `base`, or were stamped at `revision`, later than `base`. -/
structure Since (base : TerminalColorSnapshot) (revision : Nat) (s : VoyttyColorState) : Prop where
  earlier : base.changedAt < revision
  current : s.snapshot = base ∨ s.snapshot.changedAt = revision

variable {base : TerminalColorSnapshot} {revision : Nat} {s : VoyttyColorState}

theorem Since.ordered (h : Since base revision s) : Ordered base s.snapshot := by
  rcases h.current with he | he
  · rw [he]; exact .refl base
  · have := h.earlier
    exact ⟨by omega, by omega⟩

theorem Since.stamp_le (h : Since base revision s) : s.snapshot.changedAt ≤ revision := by
  have := h.earlier
  rcases h.current with he | he
  · rw [he]; omega
  · omega

theorem Since.commit (h : Since base revision s) : Since base revision (s.commit revision) := by
  refine ⟨h.earlier, ?_⟩
  rcases s.commit_snapshot revision with he | he
  · rw [he]; exact h.current
  · exact .inr (by rw [he])

theorem EngineSteps.snapshot {e e' : AlacrittyEngine R} (h : EngineSteps em e e') :
    e'.colors.snapshot = e.colors.snapshot := by
  refine run_const (f := fun e : AlacrittyEngine R => e.colors.snapshot) (fun _ _ step => ?_) h
  rcases step.effect.2.colors with hsame | hedit
  · rw [hsame]
  · exact hedit.snapshot.1

/-! ## The invariant -/

variable (em) in
/-- A property of the engine that everything the model does to it keeps; `ok` are the sizes it
may be resized to. -/
structure EngineLaw (ok : TerminalSize → Prop) (P : AlacrittyEngine R → Prop) : Prop where
  filter : Preserved (EngineStep em) P
  mark : ∀ e gridInput, P e → P { e with gridInput }
  commit : ∀ e revision, P e → P { e with colors := e.colors.commit revision }
  base : ∀ e base, base.isValid = true → P e → P { e with colors := { e.colors with base } }
  resize : ∀ e size, ok size → P e → P (e.resize em size)

theorem trivial_law : EngineLaw em (fun _ => True) fun _ => True :=
  ⟨fun _ _ _ _ => trivial, fun _ _ _ => trivial, fun _ _ _ => trivial, fun _ _ _ _ => trivial,
    fun _ _ _ _ => trivial⟩

/-- What holds of a model apart from a held batch. -/
structure Sound (P : AlacrittyEngine R → Prop) (t : TerminalModel R) : Prop where
  policy : Framed t.ingress
  engine : P t.engine
  stamp : t.engine.colors.snapshot.changedAt ≤ t.revision
  epoch : t.historyEpoch ≤ t.revision

/-- The held view was the live view of a sound model no later than `t`. -/
structure HeldView (P : AlacrittyEngine R → Prop) (held : SynchronizedOutput)
    (origin t : TerminalModel R) : Prop where
  sound : Sound P origin
  live : origin.synchronized = none
  checkpoint : held.checkpoint = origin.checkpoint
  metrics : held.scrollMetrics = origin.liveScrollMetrics
  revision : origin.revision ≤ t.revision
  ordered : Ordered origin.engine.colors.snapshot t.engine.colors.snapshot

structure ModelInv (P : AlacrittyEngine R → Prop) (t : TerminalModel R) : Prop where
  sound : Sound P t
  held : ∀ held, t.synchronized = some held → ∃ origin, HeldView P held origin t

/-- What a step publishes is no older than what was published before it. -/
structure Advances (t t' : TerminalModel R) : Prop where
  revision : t.publishedRevision ≤ t'.publishedRevision
  colors : Ordered t.checkpoint.projection.colors t'.checkpoint.projection.colors

theorem Advances.refl (t : TerminalModel R) : Advances t t := ⟨Nat.le_refl _, .refl _⟩

theorem Advances.trans {t t' t'' : TerminalModel R} (h : Advances t t') (h' : Advances t' t'') :
    Advances t t'' := ⟨h.revision.trans h'.revision, h.colors.trans h'.colors⟩

section Views

variable {P : AlacrittyEngine R → Prop} {t t' : TerminalModel R}

theorem publishedRevision_live (h : t.synchronized = none) : t.publishedRevision = t.revision := by
  simp [TerminalModel.publishedRevision, h]

theorem checkpoint_live (h : t.synchronized = none) :
    t.checkpoint = ⟨t.revision, project t.engine⟩ := by
  simp [TerminalModel.checkpoint, h]

theorem checkpoint_held {held : SynchronizedOutput} (h : t.synchronized = some held) :
    t.checkpoint = held.checkpoint := by
  simp [TerminalModel.checkpoint, h]

theorem ModelInv.published_le (h : ModelInv P t) : t.publishedRevision ≤ t.revision := by
  cases hs : t.synchronized with
  | none => exact (publishedRevision_live hs).le
  | some held =>
    obtain ⟨origin, hv⟩ := h.held held hs
    simp only [TerminalModel.publishedRevision, hs, hv.checkpoint, checkpoint_live hv.live]
    exact hv.revision

theorem ModelInv.published_ordered (h : ModelInv P t) :
    Ordered t.checkpoint.projection.colors t.engine.colors.snapshot := by
  cases hs : t.synchronized with
  | none => rw [checkpoint_live hs]; exact .refl _
  | some held =>
    obtain ⟨origin, hv⟩ := h.held held hs
    rw [checkpoint_held hs, hv.checkpoint, checkpoint_live hv.live]
    exact hv.ordered

theorem ModelInv.later (h : ModelInv P t) (hs : Sound P t') (hr : t.revision ≤ t'.revision)
    (ho : Ordered t.engine.colors.snapshot t'.engine.colors.snapshot)
    (hsync : t'.synchronized = t.synchronized ∨ t'.synchronized = none) :
    ModelInv P t' ∧ Advances t t' := by
  rcases hsync with hsync | hsync
  · refine ⟨⟨hs, fun held hheld => ?_⟩, ?_⟩
    · obtain ⟨origin, hv⟩ := h.held held (hsync ▸ hheld)
      exact ⟨origin, { hv with revision := hv.revision.trans hr, ordered := hv.ordered.trans ho }⟩
    · cases hn : t.synchronized with
      | none =>
        rw [hn] at hsync
        exact ⟨by rw [publishedRevision_live hn, publishedRevision_live hsync]; exact hr,
          by rw [checkpoint_live hn, checkpoint_live hsync]; exact ho⟩
      | some held =>
        rw [hn] at hsync
        have hrev : t'.publishedRevision = t.publishedRevision := by
          simp [TerminalModel.publishedRevision, hn, hsync]
        have hcheck : t'.checkpoint = t.checkpoint := by
          rw [checkpoint_held hn, checkpoint_held hsync]
        exact ⟨hrev.ge, by rw [hcheck]; exact .refl _⟩
  · refine ⟨⟨hs, by simp [hsync]⟩, ?_, ?_⟩
    · rw [publishedRevision_live hsync]
      exact h.published_le.trans hr
    · rw [checkpoint_live hsync]
      exact h.published_ordered.trans ho

end Views

/-! ## One round -/

section Round

variable {ok : TerminalSize → Prop} {P : AlacrittyEngine R → Prop} {start t : TerminalModel R}

theorem ModelInv.finish (h : ModelInv P t) :
    ModelInv P t.finishSynchronizedOutput.2 ∧ Advances t t.finishSynchronizedOutput.2 :=
  have hp : Framed { t.ingress with synchronizedOutput := false } :=
    ⟨⟨h.sound.policy.state, h.sound.policy.pending, h.sound.policy.idle,
      h.sound.policy.marks.boundary, h.sound.policy.marks.preceding⟩, h.sound.policy.collected⟩
  h.later ⟨hp, h.sound.engine, h.sound.stamp, h.sound.epoch⟩ (Nat.le_refl _) (.refl _) (.inr rfl)

theorem ModelInv.expire (h : ModelInv P t) (now : Nat) :
    ModelInv P (t.expireSynchronizedOutput now).2 ∧
      Advances t (t.expireSynchronizedOutput now).2 := by
  rcases expireSynchronizedOutput_cases t now with he | he <;> rw [he]
  · exact ⟨h, .refl t⟩
  · exact h.finish

/-- Inside a round begun at `start`, on its way to the next revision. -/
structure Working (P : AlacrittyEngine R → Prop) (start t : TerminalModel R) : Prop where
  sound : Sound P t
  revision : t.revision = start.revision + 1
  since : Since start.engine.colors.snapshot t.revision t.engine.colors
  sync : t.synchronized = start.synchronized

theorem Working.inv (h : Working P start t) (hs : ModelInv P start) :
    ModelInv P t ∧ Advances start t :=
  hs.later h.sound (by rw [h.revision]; omega) h.since.ordered (.inl h.sync)

theorem Working.begin (law : EngineLaw em ok P) (hs : ModelInv P start)
    {e : AlacrittyEngine R} {p : TerminalIngressPolicy}
    (he : EngineSteps em { start.engine with gridInput := false } e) (hp : Framed p) :
    Working P start
      { start with engine := e, ingress := p, revision := start.revision + 1 } where
  sound :=
    { policy := hp
      engine := law.filter.run he (law.mark _ _ hs.sound.engine)
      stamp := by rw [he.snapshot]; exact Nat.le_succ_of_le hs.sound.stamp
      epoch := Nat.le_succ_of_le hs.sound.epoch }
  revision := rfl
  since := ⟨Nat.lt_succ_of_le hs.sound.stamp, .inl he.snapshot⟩
  sync := rfl

theorem commitMetadata_frame (t : TerminalModel R) :
    ∃ epoch, (t.historyEpoch ≤ t.revision → epoch ≤ t.revision) ∧ t.commitMetadata = { t with
      engine := { t.engine with colors := t.engine.colors.commit t.revision }
      historyEpoch := epoch
      retainedHistoryRows :=
        if t.engine.gridInput = true ∧ t.engine.activeScreen = .main then
          t.engine.term.historySize
        else t.retainedHistoryRows } := by
  unfold TerminalModel.commitMetadata
  dsimp only
  split
  · rename_i hgrid
    unfold TerminalModel.refreshHistoryEpochAfterIngest
    dsimp only
    split
    · rename_i hmain
      exact ⟨t.historyEpoch, id, by rw [if_neg fun h => hmain h.2]⟩
    · rename_i hmain
      have hrows : t.engine.gridInput = true ∧ t.engine.activeScreen = .main :=
        ⟨hgrid, not_not.mp hmain⟩
      refine ⟨_, fun h => ?_, by rw [if_pos hrows]⟩
      split
      · exact Nat.le_refl _
      · exact h
  · rename_i hgrid
    exact ⟨t.historyEpoch, id, by rw [if_neg fun h => hgrid h.1]⟩

theorem commitMetadata_revision (t : TerminalModel R) : t.commitMetadata.revision = t.revision := by
  obtain ⟨_, -, h⟩ := commitMetadata_frame t
  rw [h]

theorem commitMetadata_synchronized (t : TerminalModel R) :
    t.commitMetadata.synchronized = t.synchronized := by
  obtain ⟨_, -, h⟩ := commitMetadata_frame t
  rw [h]

theorem commitMetadata_engine (t : TerminalModel R) :
    t.commitMetadata.engine = { t.engine with colors := t.engine.colors.commit t.revision } := by
  obtain ⟨_, -, h⟩ := commitMetadata_frame t
  rw [h]

theorem commitMetadata_settled (t : TerminalModel R) (r : Nat) :
    t.commitMetadata.engine.colors.commit r = t.commitMetadata.engine.colors := by
  rw [commitMetadata_engine]
  exact t.engine.colors.commit_commit _ _

theorem Working.commit (law : EngineLaw em ok P) (h : Working P start t) :
    Working P start t.commitMetadata := by
  obtain ⟨epoch, he, hc⟩ := commitMetadata_frame t
  rw [hc]
  exact
    { sound := ⟨h.sound.policy, law.commit _ _ h.sound.engine, h.since.commit.stamp_le,
        he h.sound.epoch⟩
      revision := h.revision
      since := h.since.commit
      sync := h.sync }

theorem PolicyInv.takeBoundary {p : TerminalIngressPolicy} (h : PolicyInv p) :
    PolicyInv { p with boundary := none } :=
  ⟨h.state, h.pending, h.idle, trivial, h.marks.preceding⟩

theorem takeEvents_steps {Q : List UInt8 → Prop} (e : AlacrittyEngine R) :
    FeedSteps em Q e e.takeEvents.2 :=
  .single (.locally (.events e))

theorem Working.steps (law : EngineLaw em ok P) (h : Working P start t) {e : AlacrittyEngine R}
    (he : EngineSteps em { t.engine with gridInput := false } e) :
    Working P start { t with engine := e } where
  sound :=
    { policy := h.sound.policy
      engine := law.filter.run he (law.mark _ _ h.sound.engine)
      stamp := by rw [he.snapshot]; exact h.sound.stamp
      epoch := h.sound.epoch }
  revision := h.revision
  since := ⟨h.since.earlier, by rw [he.snapshot]; exact h.since.current⟩
  sync := h.sync

variable {g : Ingest R} {modes : List Nat}

theorem Working.siblings (law : EngineLaw em ok P) (h : Working P start g.model)
    (hfit : ModesFit modes) (enabled : Bool) :
    Working P start (g.applySiblings em enabled modes).model :=
  (h.steps law ((applyPrivateModes_steps covers_contained hfit enabled _).trans (takeEvents_steps _))).commit law

theorem ModelInv.freeze (h : ModelInv P t) (hlive : t.synchronized = none) (deadline : Nat) :
    ModelInv P { t with synchronized := some ⟨t.checkpoint, t.liveScrollMetrics, deadline⟩ } ∧
      Advances t { t with synchronized := some ⟨t.checkpoint, t.liveScrollMetrics, deadline⟩ } := by
  refine ⟨⟨⟨h.sound.policy, h.sound.engine, h.sound.stamp, h.sound.epoch⟩, ?_⟩, ?_, ?_⟩
  · intro held hheld
    obtain rfl := Option.some.inj hheld
    exact ⟨t, ⟨h.sound, hlive, rfl, rfl, Nat.le_refl _, .refl _⟩⟩
  · rw [publishedRevision_live hlive]
    simp [TerminalModel.publishedRevision, checkpoint_live hlive]
  · exact .refl _

theorem applySiblings_nil (settled : ∀ r, g.model.engine.colors.commit r = g.model.engine.colors)
    (enabled : Bool) :
    (g.applySiblings em enabled []).model = { g.model with
      engine := { g.model.engine with gridInput := false, sink := {} } } := by
  have hcommit := settled g.model.revision
  simp [Ingest.applySiblings, applyPrivateModes, AlacrittyEngine.takeEvents,
    TerminalModel.commitMetadata, hcommit]

theorem siblings_nil (law : EngineLaw em ok P) (hg : ModelInv P g.model)
    (settled : ∀ r, g.model.engine.colors.commit r = g.model.engine.colors) (enabled : Bool) :
    ModelInv P (g.applySiblings em enabled []).model ∧
      Advances g.model (g.applySiblings em enabled []).model := by
  have hengine := law.filter.run (takeEvents_steps _) (law.mark _ false hg.sound.engine)
  rw [applySiblings_nil settled]
  exact hg.later ⟨hg.sound.policy, hengine, hg.sound.stamp, hg.sound.epoch⟩ (Nat.le_refl _)
    (.refl _) (.inl rfl)

theorem siblings_inv (law : EngineLaw em ok P) (hg : ModelInv P g.model) (hfit : ModesFit modes)
    (enabled : Bool) :
    ModelInv P ((g.setModel { g.model with revision := g.model.revision + 1 }).applySiblings em
        enabled modes).model ∧
      Advances g.model ((g.setModel { g.model with revision := g.model.revision + 1 }).applySiblings
        em enabled modes).model := by
  have hwork : Working P g.model { g.model with revision := g.model.revision + 1 } :=
    { sound := ⟨hg.sound.policy, hg.sound.engine, Nat.le_succ_of_le hg.sound.stamp,
        Nat.le_succ_of_le hg.sound.epoch⟩
      revision := rfl
      since := ⟨Nat.lt_succ_of_le hg.sound.stamp, .inl rfl⟩
      sync := rfl }
  exact (hwork.siblings law (g := Ingest.setModel _ _) hfit enabled).inv hg

theorem Bounded.inv (law : EngineLaw em ok P) (hs : ModelInv P start)
    (hw : Working P start g.model)
    (settled : ∀ r, g.model.engine.colors.commit r = g.model.engine.colors)
    {clock : Nat → Nat} {boundary : Option PresentationBoundary}
    {r : Except TerminalError Unit × Ingest R} (h : Bounded em clock g boundary r)
    (hb : BoundaryOk boundary) : ModelInv P r.2.model ∧ Advances start r.2.model := by
  obtain ⟨hg, hadv⟩ := hw.inv hs
  have hnext : ∀ {t t' : TerminalModel R}, Advances start t → ModelInv P t' ∧ Advances t t' →
      ModelInv P t' ∧ Advances start t' := fun hadv h => ⟨h.1, hadv.trans h.2⟩
  have hfrozen : g.model.synchronized = none →
      ModelInv P (g.frozen clock).model ∧ Advances start (g.frozen clock).model :=
    fun hlive => hnext hadv (hg.freeze hlive _)
  cases h with
  | absent => exact ⟨hg, hadv⟩
  | reset => exact hnext hadv hg.finish
  | exhausted hlive => exact hfrozen hlive
  | begins hlive =>
    obtain ⟨hf, hadv⟩ := hfrozen hlive
    exact hnext hadv (siblings_nil law (g := g.frozen clock) hf settled true)
  | siblings hlive modes =>
    obtain ⟨hf, hadv⟩ := hfrozen hlive
    exact hnext hadv (siblings_inv law hf hb true)
  | held _ modes => exact (hw.siblings law hb true).inv hs
  | ends modes =>
    obtain ⟨hg', hadv'⟩ := (hw.siblings law hb false).inv hs
    exact hnext hadv' hg'.finish

theorem Rounded.inv (law : EngineLaw em ok P) {clock : Nat → Nat} {bytes : List UInt8}
    {r : Except TerminalError (List UInt8) × Ingest R} (hr : Rounded em clock g bytes r)
    (hg : ModelInv P g.model) : ModelInv P r.2.model ∧ Advances g.model r.2.model := by
  obtain ⟨he, hadv⟩ := hg.expire (clock g.tick)
  rw [← expire_model] at he hadv
  have hadmission : Admitted em (g.expire clock).machine
      (Machine.processUntilBoundary em bytes (g.expire clock).machine).2 :=
    processUntilBoundary_admitted bytes he.sound.policy.toPolicyInv
  cases hr with
  | exhausted => exact ⟨he, hadv⟩
  | overflow hp =>
    rw [hp] at hadmission
    obtain ⟨hi, hadv'⟩ := (Working.begin law he hadmission.engine (hadmission.framed he.sound.policy)).inv he
    exact ⟨hi, hadv.trans hadv'⟩
  | failed hp hb | passed hp hb =>
    rw [hp] at hadmission
    have hwork := (Working.begin law he hadmission.engine (hadmission.framed he.sound.policy)).commit law
    obtain ⟨hi, hadv'⟩ := (Bounded.of_eq hb).inv law he
      { hwork with sound := { hwork.sound with
        policy := ⟨hwork.sound.policy.takeBoundary, hwork.sound.policy.collected⟩ } }
      (commitMetadata_settled _) hadmission.policy.marks.boundary
    exact ⟨hi, hadv.trans hadv'⟩

theorem rounds_inv (law : EngineLaw em ok P) (clock : Nat → Nat) (fuel : Nat) (bytes : List UInt8)
    (hg : ModelInv P g.model) :
    ModelInv P (Ingest.rounds em clock fuel bytes g).2.model ∧
      Advances g.model (Ingest.rounds em clock fuel bytes g).2.model := by
  let K (g' : Ingest R) : Prop := ModelInv P g'.model ∧ Advances g.model g'.model
  show K (Ingest.rounds em clock fuel bytes g).2
  refine rounds_rule (K := fun _ => K) (Q := fun _ => K) id (fun h hr => .always ?_) fuel
    ⟨hg, .refl _⟩
  obtain ⟨hi, hadv⟩ := (Rounded.of_eq hr).inv law h.1
  exact ⟨hi, h.2.trans hadv⟩

end Round

/-! ## Runs -/

inductive ModelOp where
  | ingest (clock : Nat → Nat) (bytes : List UInt8)
  | resize (size : TerminalSize)
  | updateBaseColors (base : TerminalColorProfile)
  | expire (now : Nat)
  | finish

variable (em) in
def TerminalModel.apply (t : TerminalModel R) : ModelOp → TerminalModel R
  | .ingest clock bytes => (t.ingest em clock bytes).2
  | .resize size => (t.resize em size).2
  | .updateBaseColors base => (t.updateBaseColors base).2
  | .expire now => (t.expireSynchronizedOutput now).2
  | .finish => t.finishSynchronizedOutput.2

section Run

variable {ok : TerminalSize → Prop} {P : AlacrittyEngine R → Prop} {t : TerminalModel R}

theorem ModelInv.ingest (law : EngineLaw em ok P) (h : ModelInv P t) (clock : Nat → Nat)
    (bytes : List UInt8) :
    ModelInv P (t.ingest em clock bytes).2 ∧ Advances t (t.ingest em clock bytes).2 := by
  have hr := rounds_inv law clock bytes.length bytes (g := { model := t }) h
  rwa [← (ingestObserving_ingested em t clock bytes).model] at hr

theorem ModelInv.updateBaseColors (law : EngineLaw em ok P) (h : ModelInv P t)
    (base : TerminalColorProfile) :
    ModelInv P (t.updateBaseColors base).2 ∧ Advances t (t.updateBaseColors base).2 := by
  rcases updateBaseColors_cases t base with hu | ⟨hvalid, hu⟩ <;> rw [hu]
  · exact ⟨h, .refl t⟩
  have hsince : Since t.engine.colors.snapshot (t.revision + 1)
      ({ t.engine.colors with base }.commit (t.revision + 1)) :=
    Since.commit ⟨Nat.lt_succ_of_le h.sound.stamp, .inl rfl⟩
  exact h.later ⟨h.sound.policy, law.commit _ _ (law.base _ _ hvalid h.sound.engine),
    hsince.stamp_le, Nat.le_succ_of_le h.sound.epoch⟩ (Nat.le_succ _) hsince.ordered (.inl rfl)

variable {size : TerminalSize}

theorem ModelInv.resize (law : EngineLaw em ok P) (h : ModelInv P t) (hok : ok size) :
    ModelInv P (t.resize em size).2 ∧ Advances t (t.resize em size).2 := by
  unfold TerminalModel.resize
  split
  · exact ⟨h, .refl t⟩
  rename_i next hnext
  obtain rfl := preflightResize_ok hnext
  have hsnap : (t.engine.resize em size).colors.snapshot = t.engine.colors.snapshot := by
    obtain ⟨_, _, _, h⟩ := t.engine.resize_frame em size
    rw [h]
  have hordered : Ordered t.engine.colors.snapshot (t.engine.resize em size).colors.snapshot := by
    rw [hsnap]; exact .refl _
  obtain ⟨hfinish, -⟩ := h.finish
  exact h.later
    { policy := hfinish.sound.policy
      engine := law.resize _ _ hok h.sound.engine
      stamp := hsnap ▸ Nat.le_succ_of_le h.sound.stamp
      epoch := Nat.le_refl _ }
    (Nat.le_succ _) hordered (.inr rfl)

/-- Sizes a command may ask for. -/
def ModelOp.Allowed (ok : TerminalSize → Prop) : ModelOp → Prop
  | .resize size => ok size
  | _ => True

theorem ModelInv.apply (law : EngineLaw em ok P) (h : ModelInv P t) {op : ModelOp}
    (hop : op.Allowed ok) : ModelInv P (t.apply em op) ∧ Advances t (t.apply em op) := by
  cases op with
  | ingest clock bytes => exact h.ingest law clock bytes
  | resize size => exact h.resize law hop
  | updateBaseColors base => exact h.updateBaseColors law base
  | expire now => exact h.expire now
  | finish => exact h.finish

theorem new_steps (size : TerminalSize) (scrollbackRows : Nat) :
    EngineSteps em (.blank em size scrollbackRows) (.new em size scrollbackRows) := by
  have hcontained : Contained AlacrittyEngine.alternateScrollOff :=
    .csi _ [0x3f, 0x31, 0x30, 0x30, 0x37] 0x6c ⟨rfl, by simp, by decide⟩ (by simp [AlacrittyEngine.alternateScrollOff])
  exact (ReflTransGen.single (.feed _ _ hcontained)).trans (takeEvents_steps _)

theorem new_ingress {scrollbackRows : Nat} {t : TerminalModel R}
    (h : TerminalModel.new em size scrollbackRows = .ok t) :
    t.ingress = {} ∧ t.revision = 0 ∧ t.synchronized = none ∧
      t.engine = .new em size scrollbackRows := by
  unfold TerminalModel.new at h
  split at h
  · cases h
  · obtain rfl := Except.ok.inj h
    exact ⟨rfl, rfl, rfl, rfl⟩

theorem ModelInv.new (law : EngineLaw em ok P) {scrollbackRows : Nat}
    (h : TerminalModel.new em size scrollbackRows = .ok t) (hP : P (.blank em size scrollbackRows)) :
    ModelInv P t := by
  have hsteps : EngineSteps em _ _ := new_steps size scrollbackRows
  unfold TerminalModel.new at h
  split at h
  · cases h
  · obtain rfl := Except.ok.inj h
    have hstamp : (AlacrittyEngine.new em size scrollbackRows).colors.snapshot.changedAt ≤ 0 := by
      rw [hsteps.snapshot]
      exact Nat.le_refl 0
    exact ⟨⟨⟨PolicyInv.init, trivial⟩, law.filter.run hsteps hP, hstamp, Nat.le_refl _⟩, by simp⟩

end Run

/-! ## A small emulator -/

/-- An emulator that writes ASCII at the cursor and understands nothing else. -/
def typewriter : Emulator Unit where
  alphaIsOne := fun _ => none
  intensity := fun _ => none
  colorName := fun _ => none
  charWidth := fun _ => some 1
  webUrl := fun _ => none
  base64Decode := fun _ => none
  base64Encode := fun _ => []
  init := fun size _ =>
    { mode := {}
      cursorShape := .block
      cursorBlinking := false
      cursor := {}
      savedTemplate := {}
      screenLines := size.rows
      columns := size.columns
      historySize := 0
      cell := fun _ _ => {}
      hidden := () }
  advance := fun t bytes =>
    match bytes with
    | [b] =>
      let written : Cell := { c := Char.ofNat b.toNat }
      let cell := fun line column =>
        if line = t.cursor.line ∧ column = t.cursor.column then written else t.cell line column
      let cursor := { t.cursor with column := min (t.cursor.column + 1) (t.columns - 1) }
      ({ t with cell, cursor }, [])
    | _ => (t, [])
  resize := fun t size => { t with screenLines := size.rows, columns := size.columns }

/-! ## The child's bytes -/

def FedContained (e : AlacrittyEngine R) : Prop := ∀ bytes ∈ e.fed, Contained bytes

theorem fedContained_law : EngineLaw em (fun _ => True) FedContained where
  filter := fun _ _ step h => by
    obtain ⟨units, hu, hunits⟩ := FeedSteps.fed (.single step)
    intro bytes hb
    rw [hu] at hb
    exact (List.mem_append.mp hb).elim (h bytes) (hunits bytes)
  mark := fun _ _ h => h
  commit := fun _ _ h => h
  base := fun _ _ _ h => h
  resize := fun e size _ h => by
    obtain ⟨_, _, _, hr⟩ := e.resize_frame em size
    rw [hr]
    exact h

theorem ModelInv.applyAll {ok : TerminalSize → Prop} {P : AlacrittyEngine R → Prop}
    (law : EngineLaw em ok P) {t : TerminalModel R} (h : ModelInv P t) {ops : List ModelOp}
    (hops : ∀ op ∈ ops, op.Allowed ok) : ModelInv P (ops.foldl (·.apply em) t) := by
  induction ops generalizing t with
  | nil => exact h
  | cons op ops ih =>
    exact ih (h.apply law (hops op List.mem_cons_self)).1
      fun op' hop' => hops op' (List.mem_cons_of_mem _ hop')

/-- A byte of a control string reaches neither the engine nor what the filter may feed later. -/
theorem processByte_string {m : Machine R} {s : ControlString} (h : m.policy.state = .string s)
    (b : UInt8) :
    (m.processByte em b).2.engine.fed = m.engine.fed ∧
      (m.processByte em b).2.policy.utf8 = m.policy.utf8 ∧
      (m.processByte em b).2.policy.precedingCharacter = m.policy.precedingCharacter ∧
      ((m.processByte em b).2.policy.state = .ground ∨
        ∃ s', (m.processByte em b).2.policy.state = .string s') := by
  have hbyte : m.processByte em b = (m.setState .ground).processString em b s := by
    unfold Machine.processByte
    rw [h]
  rw [hbyte]
  rcases processString_cases em (m.setState .ground) b s with
    hs | ⟨sawEscape, finish, -, hs⟩ | ⟨t, -, hs⟩ <;> rw [hs]
  · exact ⟨rfl, rfl, rfl, .inl rfl⟩
  · have haside : Aside em (m.setState .ground) _ := .dispatchString { s with sawEscape } finish
    rw [haside.policy]
    exact ⟨haside.fed, rfl, rfl, .inl rfl⟩
  · exact ⟨rfl, rfl, rfl, .inr ⟨t, rfl⟩⟩

/-- Whatever the child sends and however it is chunked, the engine is only ever fed contained
byte strings; together they never open a control string, and a byte inside one feeds nothing. -/
theorem fed_contained (em : Emulator R) (size : TerminalSize) (scrollbackRows : Nat)
    (t : TerminalModel R) (hnew : TerminalModel.new em size scrollbackRows = .ok t)
    (ops : List ModelOp) :
    (∀ bytes ∈ (ops.foldl (·.apply em) t).engine.fed, Contained bytes) ∧
      EscapesFramed (ops.foldl (·.apply em) t).engine.fed.flatten ∧
      ∀ (m : Machine R) (s : ControlString) (b : UInt8), m.policy.state = .string s →
        (m.processByte em b).2.engine.fed = m.engine.fed ∧
          (m.processByte em b).2.policy.utf8 = m.policy.utf8 ∧
          (m.processByte em b).2.policy.precedingCharacter = m.policy.precedingCharacter ∧
          ((m.processByte em b).2.policy.state = .ground ∨
            ∃ s', (m.processByte em b).2.policy.state = .string s') := by
  have hstart : ModelInv FedContained t :=
    .new fedContained_law hnew (by simp [FedContained, AlacrittyEngine.blank])
  have hallowed : ∀ op ∈ ops, op.Allowed fun _ => True := fun op _ => by cases op <;> trivial
  have hfed : FedContained (ops.foldl (·.apply em) t).engine :=
    (hstart.applyAll fedContained_law hallowed).sound.engine
  exact ⟨hfed, .flatten fun bytes hb => (hfed bytes hb).escapesFramed,
    fun m s b h => processByte_string h b⟩

theorem fed_contained_typewriter :
    ∃ t, TerminalModel.new typewriter ⟨24, 80⟩ 100 = .ok t ∧
      ∀ bytes ∈ ([ModelOp.ingest id [0x1b, 0x5d, 0x38, 0x3b, 0x61, 0x07, 0x62]].foldl
        (·.apply typewriter) t).engine.fed, Contained bytes :=
  ⟨_, rfl, (fed_contained typewriter ⟨24, 80⟩ 100 _ rfl _).1⟩

end Voytty.Terminal
