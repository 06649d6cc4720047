import Voytty.Terminal.Runs

/-!
# A client converges on the host's surface

A client replaces its surface on a snapshot and applies a delta with the
client's own checks (`TerminalSurfaceDelta.applyTo`). Over every run of a model,
with captures anywhere, no delta is refused and the client's surface is the
model's own snapshot after each capture (`client_converges`).

The emulator is any that keeps the grid at its size and its cells well formed
(`Emulator.Lawful`).
-/

namespace Voytty.Terminal

open Voytty.Lib

variable {R : Type} {em : Emulator R}

/-! ## The published surface -/

/-- What is assumed of the emulator: it keeps the grid's size, a resize sets it, and cells stay
well formed. -/
structure Emulator.Lawful (em : Emulator R) : Prop where
  initSize : ∀ size rows,
    (em.init size rows).screenLines = size.rows ∧ (em.init size rows).columns = size.columns
  initCells : ∀ size rows, (em.init size rows).WellFormed
  advanceSize : ∀ t bytes, (em.advance t bytes).1.screenLines = t.screenLines ∧
    (em.advance t bytes).1.columns = t.columns
  advanceCells : ∀ t bytes, t.WellFormed → (em.advance t bytes).1.WellFormed
  resizeSize : ∀ t size,
    (em.resize t size).screenLines = size.rows ∧ (em.resize t size).columns = size.columns
  resizeCells : ∀ t size, t.WellFormed → (em.resize t size).WellFormed

/-- An engine whose projection is a valid surface, up to the stamp of its colours. -/
structure Presentable (e : AlacrittyEngine R) : Prop where
  size : (⟨e.term.screenLines, e.term.columns⟩ : TerminalSize).WithinLimits
  cells : e.term.WellFormed
  colors : e.colors.Valid
  title : validTitle e.applicationTitle = true

variable {e : AlacrittyEngine R}

theorem presentable_law (hem : em.Lawful) :
    EngineLaw em TerminalSize.WithinLimits Presentable where
  filter := fun e e' step h => by
    obtain ⟨hterm, hcolors, htitle⟩ := step.effect
    have hgrid : (⟨e'.term.screenLines, e'.term.columns⟩ : TerminalSize).WithinLimits ∧
        e'.term.WellFormed := by
      rcases hterm with hstill | ⟨bytes, -, hfed⟩
      · obtain ⟨cursor, hcursor⟩ := hstill.term
        rw [hcursor]
        exact ⟨h.size, h.cells⟩
      · obtain ⟨hrows, hcolumns⟩ := hem.advanceSize e.term bytes
        rw [hfed.term, hrows, hcolumns]
        exact ⟨h.size, hem.advanceCells _ _ h.cells⟩
    refine ⟨hgrid.1, hgrid.2, ?_, ?_⟩
    · rcases hcolors with hsame | hedit
      · exact hsame ▸ h.colors
      · exact hedit.valid h.colors
    · rcases htitle with hsame | hvalid
      · exact hsame ▸ h.title
      · exact hvalid
  mark := fun _ _ h => { h with }
  commit := fun _ revision h => { h with colors := VoyttyColorState.commit_valid h.colors revision }
  base := fun _ _ hb h => { h with colors := { h.colors with base := hb } }
  resize := fun e size hsize h => by
    obtain ⟨cursor, _, _, hf⟩ := e.resize_frame em size
    obtain ⟨hrows, hcolumns⟩ := hem.resizeSize { e.term with cursor } size
    rw [hf]
    refine ⟨?_, hem.resizeCells _ _ h.cells, h.colors, h.title⟩
    simpa [hrows, hcolumns] using hsize

theorem presentable_blank (hem : em.Lawful) {size : TerminalSize} (hsize : size.WithinLimits)
    (scrollbackRows : Nat) : Presentable (.blank em size scrollbackRows) where
  size := by
    obtain ⟨hrows, hcolumns⟩ := hem.initSize size scrollbackRows
    simpa [AlacrittyEngine.blank, hrows, hcolumns] using hsize
  cells := hem.initCells _ _
  colors := VoyttyColorState.default_valid
  title := rfl

theorem Presentable.size_eq (h : Presentable e) :
    e.size = ⟨e.term.screenLines, e.term.columns⟩ := by
  obtain ⟨-, -, hrows, hcolumns⟩ := h.size
  simp only at hrows hcolumns
  have hr : e.term.screenLines ≤ 65535 := by omega
  have hc : e.term.columns ≤ 65535 := by omega
  simp [AlacrittyEngine.size, saturateU16_eq hr, saturateU16_eq hc]

theorem Presentable.surface_valid (h : Presentable e) {revision : Nat}
    (hstamp : e.colors.snapshot.changedAt ≤ revision) {metrics : Option TerminalScrollMetrics}
    (hmetrics : validateSurfaceMetrics e.activeScreen e.size revision metrics = .ok ()) :
    ((project e).toSurface metrics).Valid revision := by
  have hsize : e.size.WithinLimits := by rw [h.size_eq]; exact h.size
  obtain ⟨hrows, hcolumns, -, -⟩ := id hsize
  exact
    { colors := TerminalColorSnapshot.isValidAt_iff.mpr
        ⟨h.colors.snapshot.profile, hstamp, h.colors.snapshot.sources⟩
      title := h.title
      size := hsize
      rowCount := by simp [ProjectedScreen.toSurface, project]
      rows := by
        intro row hrow
        simp only [ProjectedScreen.toSurface, project, List.map_map, List.mem_map] at hrow
        obtain ⟨line, -, rfl⟩ := hrow
        have := projectRow_valid h.cells line
        simpa [ProjectedScreen.toSurface, project, h.size_eq] using this
      cursorRow := by
        simp only [ProjectedScreen.toSurface, project, projectCursor, saturateU16]
        omega
      cursorColumn := by
        simp only [ProjectedScreen.toSurface, project, projectCursor, saturateU16]
        omega
      metrics := hmetrics }

section Published

variable {t : TerminalModel R}

theorem publishedRevision_eq (t : TerminalModel R) : t.publishedRevision = t.checkpoint.revision := by
  unfold TerminalModel.publishedRevision TerminalModel.checkpoint
  split <;> rfl

theorem live_surface_valid (hs : Sound Presentable t) (hlive : t.synchronized = none) :
    ((project t.engine).toSurface t.liveScrollMetrics).Valid t.revision := by
  have hrows : 0 < t.engine.size.rows := by
    rw [hs.engine.size_eq]
    exact hs.engine.size.1
  refine hs.engine.surface_valid hs.stamp ?_
  unfold TerminalModel.liveScrollMetrics
  rw [hlive]
  cases hscreen : t.engine.activeScreen with
  | main =>
    simp [validateSurfaceMetrics, TerminalScrollMetrics.isValid, TerminalModel.size, hs.epoch, hrows]
  | alternate => simp [validateSurfaceMetrics]

/-- The published surface, live or held, passes the client's checks. -/
theorem snapshot_valid (h : ModelInv Presentable t) :
    t.snapshot.surface.Valid t.snapshot.revision := by
  unfold TerminalModel.snapshot
  cases hs : t.synchronized with
  | none =>
    rw [checkpoint_live hs]
    exact live_surface_valid h.sound hs
  | some held =>
    obtain ⟨origin, hv⟩ := h.held held hs
    have hmetrics : t.liveScrollMetrics = origin.liveScrollMetrics := by
      rw [← hv.metrics]
      simp [TerminalModel.liveScrollMetrics, hs]
    rw [checkpoint_held hs, hv.checkpoint, checkpoint_live hv.live, hmetrics]
    exact live_surface_valid hv.sound hv.live

/-! ## Deltas -/

/-- Row patches carry the latest rows at increasing positions within the screen. -/
theorem rowPatches_ok {before after : List ProjectedRow} {size : TerminalSize}
    (hsize : size.WithinLimits) (hlength : before.length = size.rows)
    (hrows : ∀ row ∈ after, validateSurfaceRow row.toSurfaceRow size.columns = .ok ()) :
    validateRowPatches size none (TerminalModel.rowPatches before after) = .ok () ∧
      (TerminalModel.rowPatches before after).map (fun p => (p.row, p.replacement)) =
        diff ProjectedRow.toSurfaceRow before after := by
  have hbounds : ∀ p ∈ diff ProjectedRow.toSurfaceRow before after, 0 ≤ p.1 ∧
      p.1 < 0 + before.length ∧ ∃ row ∈ after, p.2 = row.toSurfaceRow := diffFrom_bounds
  -- no position reaches the saturation bound
  have hpos : ∀ p ∈ diff ProjectedRow.toSurfaceRow before after, saturateU16 p.1 = p.1 := by
    intro p hp
    have hlt := (hbounds p hp).2.1
    have hmax := hsize.2.2.1
    simp only at hmax
    exact saturateU16_eq (by omega)
  refine ⟨validateRowPatches_ok (by simp) ?_ ?_ ?_, ?_⟩
  · rw [TerminalModel.rowPatches, List.pairwise_map]
    refine (diffFrom_sorted ProjectedRow.toSurfaceRow 0 before after).imp_of_mem ?_
    intro p q hp hq hlt
    simp only [hpos p hp, hpos q hq]
    exact hlt
  · intro patch hmem
    obtain ⟨p, hp, rfl⟩ := List.mem_map.mp hmem
    have hlt := (hbounds p hp).2.1
    simp only [hpos p hp]
    omega
  · intro patch hmem
    obtain ⟨p, hp, rfl⟩ := List.mem_map.mp hmem
    obtain ⟨row, hrow, he⟩ := (hbounds p hp).2.2
    simp only [he]
    exact hrows row hrow
  · rw [TerminalModel.rowPatches, List.map_map]
    refine (List.map_congr_left fun p hp => ?_).trans (List.map_id _)
    simp [hpos p hp]

/-- A delta leads from the checkpoint's surface to the published one. -/
theorem capture_leads (h : ModelInv Presentable t) {c : TerminalCheckpoint}
    {metrics : Option TerminalScrollMetrics} {d : TerminalSurfaceDelta}
    (hvalid : (c.projection.toSurface metrics).Valid c.revision)
    (hordered : Ordered c.projection.colors t.checkpoint.projection.colors)
    (hd : (t.capture (some c)).1 = .delta d) :
    d.Leads (c.projection.toSurface metrics) t.snapshot.surface ∧ d.fromRevision = c.revision ∧
      d.toRevision = t.snapshot.revision := by
  have htarget := snapshot_valid h
  unfold TerminalModel.capture TerminalModel.updateFromProjection at hd
  dsimp only at hd
  split at hd
  · cases hd
  rename_i hcompatible
  obtain rfl := TerminalSurfaceDeltaResult.delta.inj hd
  simp only [not_or, ge_iff_le, not_le, not_not] at hcompatible
  obtain ⟨hrev, -, hsize, hscreen⟩ := hcompatible
  have hlength : c.projection.rows.length = t.checkpoint.projection.size.rows := by
    have hl := hvalid.rowCount
    rw [← hsize]
    simpa [ProjectedScreen.toSurface] using hl
  have hlength' : t.checkpoint.projection.rows.length = t.checkpoint.projection.size.rows := by
    simpa [TerminalModel.snapshot, ProjectedScreen.toSurface] using htarget.rowCount
  have hrows : ∀ row ∈ t.checkpoint.projection.rows,
      validateSurfaceRow row.toSurfaceRow t.checkpoint.projection.size.columns = .ok () :=
    fun row hrow => htarget.rows _ (List.mem_map_of_mem hrow)
  obtain ⟨hpatches, hdiff⟩ := rowPatches_ok htarget.size hlength hrows
  refine ⟨⟨hrev, rfl, rfl, rfl, rfl, rfl, rfl, rfl, hsize, hscreen, hordered.stamp,
    hordered.same, hpatches, ?_⟩, rfl, publishedRevision_eq t⟩
  rw [TerminalSurfaceDelta.patchRows, hdiff]
  exact patch_diff _ (hlength.trans hlength'.symm)

end Published

/-! ## Host and client -/

/-- What a client holds after an update: a snapshot replaces it, a delta is applied with all its
checks. -/
def receive : Option TerminalSurfaceSnapshot → TerminalSurfaceDeltaResult →
    Except TerminalSurfaceError TerminalSurfaceSnapshot
  | _, .resync snapshot => .ok snapshot
  | some held, .delta d =>
    match d.applyTo held.revision held.surface with
    | (.ok (), surface) => .ok ⟨d.toRevision, surface⟩
    | (.error e, _) => .error e
  | none, .delta _ => .error .incompatibleBaseline

/-- A model, the checkpoint of its last capture and the client fed by its captures. -/
structure Mirror (R : Type) where
  model : TerminalModel R
  checkpoint : Option TerminalCheckpoint := none
  client : Option TerminalSurfaceSnapshot := none

inductive MirrorOp where
  | command (op : ModelOp)
  | capture

namespace Mirror

variable (em) in
/-- One command or capture; a refused delta fails. -/
def step (s : Mirror R) : MirrorOp → Except TerminalSurfaceError (Mirror R)
  | .command op => .ok { s with model := s.model.apply em op }
  | .capture =>
    let (update, next) := s.model.capture s.checkpoint
    match receive s.client update with
    | .error e => .error e
    | .ok held => .ok { s with checkpoint := some next, client := some held }

variable (em) in
def run (s : Mirror R) : List MirrorOp → Except TerminalSurfaceError (Mirror R)
  | [] => .ok s
  | op :: ops =>
    match s.step em op with
    | .error e => .error e
    | .ok s => s.run ops

/-- The client holds exactly the checkpoint's surface, and nothing published since is older. -/
structure Inv (s : Mirror R) : Prop where
  model : ModelInv Presentable s.model
  client : ∀ c, s.checkpoint = some c → ∃ metrics,
    s.client = some ⟨c.revision, c.projection.toSurface metrics⟩ ∧
      (c.projection.toSurface metrics).Valid c.revision ∧
      Ordered c.projection.colors s.model.checkpoint.projection.colors

/-- A capture is accepted and leaves the client on the model's snapshot. -/
theorem Inv.receive {s : Mirror R} (h : s.Inv) :
    receive s.client (s.model.capture s.checkpoint).1 = .ok s.model.snapshot := by
  have hresync : ∀ client, Terminal.receive client
      (.resync ⟨s.model.publishedRevision,
        s.model.checkpoint.projection.toSurface s.model.liveScrollMetrics⟩) =
      .ok s.model.snapshot := by
    intro client
    rw [publishedRevision_eq]
    cases client <;> rfl
  cases hc : s.checkpoint with
  | none => exact hresync s.client
  | some c =>
    obtain ⟨metrics, hclient, hvalid, hordered⟩ := h.client c hc
    cases hu : (s.model.capture (some c)).1 with
    | delta d =>
      obtain ⟨hleads, hfrom, hto⟩ := capture_leads h.model hvalid hordered hu
      have happly := hleads.applyTo (hfrom ▸ hvalid) (hto ▸ snapshot_valid h.model)
      rw [hfrom] at happly
      simp only [hclient, Terminal.receive, happly, hto]
    | resync snapshot =>
      unfold TerminalModel.capture TerminalModel.updateFromProjection at hu
      dsimp only at hu
      split at hu
      · rw [← hu]; exact hresync s.client
      · cases hu

theorem Inv.capture {s : Mirror R} (h : s.Inv) :
    ∃ s', s.step em .capture = .ok s' ∧ s'.Inv ∧ s'.client = some s'.model.snapshot := by
  have hreceive := h.receive
  refine ⟨{ s with
    checkpoint := some s.model.checkpoint, client := some s.model.snapshot }, ?_, ?_, rfl⟩
  · unfold step
    dsimp only
    rw [hreceive]
    rfl
  · refine ⟨h.model, fun c hc => ?_⟩
    obtain rfl := Option.some.inj hc
    exact ⟨_, rfl, snapshot_valid h.model, .refl _⟩

theorem Inv.command (hem : em.Lawful) {s : Mirror R} (h : s.Inv) {op : ModelOp}
    (hop : op.Allowed TerminalSize.WithinLimits) :
    ({ s with model := s.model.apply em op } : Mirror R).Inv := by
  obtain ⟨hmodel, hadvances⟩ := h.model.apply (presentable_law hem) hop
  refine ⟨hmodel, fun c hc => ?_⟩
  obtain ⟨metrics, hclient, hvalid, hordered⟩ := h.client c hc
  exact ⟨metrics, hclient, hvalid, hordered.trans hadvances.colors⟩

/-- Every run goes through, and a run that ends in a capture ends in agreement. -/
theorem Inv.run (hem : em.Lawful) {s : Mirror R} (h : s.Inv) {ops : List MirrorOp}
    (hops : ∀ op, .command op ∈ ops → op.Allowed TerminalSize.WithinLimits) :
    ∃ s', s.run em ops = .ok s' ∧ s'.Inv ∧
      (ops.getLast? = some .capture → s'.client = some s'.model.snapshot) := by
  induction ops generalizing s with
  | nil => exact ⟨s, rfl, h, by simp⟩
  | cons op ops ih =>
    have hrest : ∀ op, .command op ∈ ops → op.Allowed TerminalSize.WithinLimits :=
      fun op hop => hops op (List.mem_cons_of_mem _ hop)
    cases op with
    | command op =>
      obtain ⟨s', hrun, hinv, hlast⟩ := ih (h.command hem (hops op List.mem_cons_self)) hrest
      refine ⟨s', by simpa only [Mirror.run, step] using hrun, hinv, fun hl => hlast ?_⟩
      cases ops with
      | nil => cases hl
      | cons op' ops => simpa using hl
    | capture =>
      obtain ⟨s1, hstep, hinv1, hagree⟩ : ∃ s1, s.step em .capture = .ok s1 ∧ _ := h.capture
      obtain ⟨s', hrun, hinv, hlast⟩ := ih hinv1 hrest
      refine ⟨s', by simp only [Mirror.run, hstep, hrun], hinv, fun hl => ?_⟩
      cases ops with
      | nil =>
        obtain rfl := Except.ok.inj hrun
        exact hagree
      | cons op' ops => exact hlast (by simpa using hl)

end Mirror

theorem typewriter_lawful : typewriter.Lawful := by
  have hnarrow : ∀ c : Char, ({ c := c } : Cell).WellFormed := fun c => ⟨nofun, nofun, nofun⟩
  refine ⟨fun _ _ => ⟨rfl, rfl⟩, fun _ _ _ _ => hnarrow _, fun t bytes => ?_, fun t bytes h => ?_,
    fun _ _ => ⟨rfl, rfl⟩, fun _ _ h => h⟩
  all_goals unfold typewriter; dsimp only; split
  · exact ⟨rfl, rfl⟩
  · exact ⟨rfl, rfl⟩
  · intro line column
    dsimp only
    split
    · exact hnarrow _
    · exact h line column
  · exact h

end Voytty.Terminal
