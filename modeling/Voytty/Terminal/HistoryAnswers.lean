import Voytty.Terminal.Acceptance
import Voytty.Terminal.Convergence
import Voytty.Terminal.Driver
import Voytty.Terminal.HistoryEpochs
import Voytty.Terminal.HistoryShapes

/-!
# History windows are answered

The rows a model counts are the grid's own history whenever the main screen is
shown (`Tracks`): a commit counts them again after input, and without input the
grid does not move. The window the model then cuts lies in the grid, and the
client's check accepts it. A reply that does not fit ends a chunk before the
rows are counted.
-/

namespace Voytty.Terminal

open Voytty.Lib

variable {R : Type} {em : Emulator R}

/-! ## The count -/

/-- On the main screen the rows counted are the grid's history. -/
def TerminalModel.Tracks (t : TerminalModel R) : Prop :=
  t.engine.activeScreen = .main → t.retainedHistoryRows = t.engine.term.historySize

theorem EngineSteps.still {e e' : AlacrittyEngine R} (h : EngineSteps em e e')
    (hinput : e'.gridInput = false) :
    e.gridInput = false ∧ e'.term.historySize = e.term.historySize ∧
      e'.activeScreen = e.activeScreen := by
  induction h with
  | refl => exact ⟨hinput, rfl, rfl⟩
  | @tail e₁ e₂ _ step ih =>
    rcases step.effect.1 with hstill | ⟨bytes, -, hfed⟩
    · obtain ⟨cursor, hterm⟩ := hstill.term
      obtain ⟨hstart, hsize, hscreen⟩ := ih (hstill.input ▸ hinput)
      exact ⟨hstart, by rw [hterm, ← hsize], hstill.screen.trans hscreen⟩
    · rw [hfed.input] at hinput
      cases hinput

section Model

variable {t t' : TerminalModel R}

theorem TerminalModel.Tracks.commit (h : t.Tracks)
    (hsteps : EngineSteps em { t.engine with gridInput := false } t'.engine)
    (hrows : t'.retainedHistoryRows = t.retainedHistoryRows) : t'.commitMetadata.Tracks := by
  obtain ⟨epoch, -, hcommit⟩ := commitMetadata_frame t'
  rw [hcommit]
  intro hmain
  replace hmain : t'.engine.activeScreen = .main := hmain
  by_cases hinput : t'.engine.gridInput = true
  · have hcounted : t'.engine.gridInput = true ∧ t'.engine.activeScreen = .main := ⟨hinput, hmain⟩
    exact if_pos hcounted
  · obtain ⟨-, hsize, hscreen⟩ := hsteps.still (by simpa using hinput)
    have hkept : ¬(t'.engine.gridInput = true ∧ t'.engine.activeScreen = .main) :=
      fun h => hinput h.1
    dsimp only
    rw [if_neg hkept, hrows, h (hscreen.symm.trans hmain)]
    exact hsize.symm

variable {g : Ingest R}

theorem TerminalModel.Tracks.siblings (h : g.model.Tracks) {modes : List Nat}
    (hfit : ModesFit modes) (enabled : Bool) : (g.applySiblings em enabled modes).model.Tracks :=
  h.commit ((applyPrivateModes_steps covers_contained hfit enabled _).trans (takeEvents_steps _)) rfl

theorem TerminalModel.Tracks.boundary {clock : Nat → Nat} {boundary : Option PresentationBoundary}
    {r : Except TerminalError Unit × Ingest R} (h : g.model.Tracks)
    (hr : Bounded em clock g boundary r) (hb : BoundaryOk boundary) : r.2.model.Tracks := by
  have hfrozen : (g.frozen clock).model.Tracks := h
  cases hr with
  | absent | reset | exhausted => exact h
  | begins => exact hfrozen.siblings hb true
  | siblings =>
    refine TerminalModel.Tracks.siblings (g := Ingest.setModel _ _) ?_ hb true
    exact h
  | held => exact h.siblings hb true
  | ends => exact h.siblings hb false

/-- A round counts what it fed unless a reply did not fit. -/
theorem TerminalModel.Tracks.round {clock : Nat → Nat} {bytes : List UInt8}
    {r : Except TerminalError (List UInt8) × Ingest R} (h : g.model.Tracks)
    (hp : PolicyInv g.model.ingress) (hr : Rounded em clock g bytes r)
    (hfit : r.1 ≠ .error .replyOverflow) : r.2.model.Tracks := by
  have hexpire : (g.expire clock).model.Tracks ∧ PolicyInv (g.expire clock).model.ingress := by
    rcases expire_cases g clock with he | he <;> rw [he]
    · exact ⟨h, hp⟩
    · exact ⟨h, hp.state, hp.pending, hp.idle, hp.marks.boundary, hp.marks.preceding⟩
  cases hr with
  | exhausted => exact hexpire.1
  | overflow => exact absurd rfl hfit
  | @failed _ m _ _ hm hb | @passed _ m _ hm hb =>
    have hadmitted : Admitted em (g.expire clock).machine _ :=
      processUntilBoundary_admitted bytes hexpire.2
    rw [hm] at hadmitted
    have hcommit : ((g.expire clock).install ((g.expire clock).model.revision + 1)
        m).model.commitMetadata.Tracks := hexpire.1.commit hadmitted.engine rfl
    exact TerminalModel.Tracks.boundary (g := (g.expire clock).settled _ m) hcommit (.of_eq hb)
      hadmitted.policy.marks.boundary

theorem TerminalModel.Tracks.ingest (h : t.Tracks) (hi : ModelInv (fun _ => True) t)
    (clock : Nat → Nat) (bytes : List UInt8)
    (hfit : (t.ingest em clock bytes).1 ≠ .error .replyOverflow) :
    (t.ingest em clock bytes).2.Tracks := by
  have hingested := ingestObserving_ingested em t clock bytes
  have hok := fun he => hfit ((hingested.error _).mpr he)
  change (t.ingestObserving em clock bytes).2.model.Tracks
  rw [hingested.model]
  refine rounds_rule (K := fun _ g => g.model.Tracks ∧ ModelInv (fun _ => True) g.model)
    (Q := fun res g => res ≠ .error .replyOverflow → g.model.Tracks) (fun h _ => h.1)
    (fun {_ _ r} h hr => ?_) bytes.length ⟨h, hi⟩ hok
  have hround := Rounded.of_eq hr
  rcases r with ⟨e | rest, g'⟩
  · exact fun he => h.1.round h.2.sound.policy.toPolicyInv hround fun hr => he (by rw [Except.error.inj hr])
  · exact ⟨h.1.round h.2.sound.policy.toPolicyInv hround nofun, (hround.inv trivial_law h.2).1⟩

variable (em) in
/-- In the run no chunk is refused because its replies do not fit. -/
def RepliesFit (t : TerminalModel R) : List ModelOp → Prop
  | [] => True
  | op :: ops =>
    (∀ clock bytes, op = .ingest clock bytes →
      (t.ingest em clock bytes).1 ≠ .error .replyOverflow) ∧ RepliesFit (t.apply em op) ops

theorem TerminalModel.Tracks.apply (h : t.Tracks) (hi : ModelInv (fun _ => True) t) {op : ModelOp}
    (hfit : ∀ clock bytes, op = .ingest clock bytes →
      (t.ingest em clock bytes).1 ≠ .error .replyOverflow) : (t.apply em op).Tracks := by
  cases op with
  | ingest clock bytes => exact h.ingest hi clock bytes (hfit clock bytes rfl)
  | resize size =>
    unfold TerminalModel.apply TerminalModel.resize
    dsimp only
    split
    · exact h
    · exact fun hmain => if_pos hmain
  | updateBaseColors base =>
    rcases updateBaseColors_cases t base with hu | ⟨-, hu⟩ <;> simp only [TerminalModel.apply, hu] <;>
      exact h
  | expire now =>
    rcases expireSynchronizedOutput_cases t now with he | he <;>
      simp only [TerminalModel.apply, he] <;> exact h
  | finish => exact h

theorem TerminalModel.Tracks.run (h : t.Tracks) (hi : ModelInv (fun _ => True) t)
    {ops : List ModelOp} (hfit : RepliesFit em t ops) : (ops.foldl (·.apply em) t).Tracks := by
  induction ops generalizing t with
  | nil => exact h
  | cons op ops ih =>
    have hallowed : op.Allowed fun _ => True := by cases op <;> trivial
    exact ih (h.apply hi hfit.1) (hi.apply trivial_law hallowed).1 hfit.2

end Model

/-! ## The window -/

variable {shape : TerminalHistoryWindowResponseShape}

theorem TerminalHistoryWindowQuery.responseShape_within {q : TerminalHistoryWindowQuery}
    {anchor : TerminalHistoryWindowAnchor} (h : q.responseShape anchor = some shape) :
    -anchor.maxOffsetFromBottom ≤ shape.firstRowFromLiveTop ∧
      shape.firstRowFromLiveTop + shape.rowCount ≤ anchor.viewport.rows ∧
      shape.rowCount ≤ maxHistoryWindowRows := by
  unfold responseShape at h
  split at h
  · cases h
  simp only [Option.bind_eq_bind, Option.bind_eq_some_iff] at h
  obtain ⟨target, -, ⟨first, stop⟩, hrange, span, hspan, h⟩ := h
  obtain ⟨rfl, -⟩ := checkedI64_some hspan
  unfold clippedRange at hrange
  simp only [Option.bind_eq_bind, Option.bind_eq_some_iff] at hrange
  obtain ⟨history, hhistory, _, -, _, -, _, -, _, -, oldest, holdest, _, -, hrange⟩ := hrange
  obtain ⟨rfl, -⟩ := checkedI64_some hhistory
  obtain ⟨rfl, -⟩ := checkedI64_some holdest
  obtain ⟨rfl, rfl⟩ := Prod.mk.inj (Option.some.inj hrange)
  split at h
  · cases h
  · rename_i hspan
    obtain rfl := Option.some.inj h
    dsimp only
    omega

theorem TerminalModel.windowLines_some {lines : List Int}
    (h : TerminalModel.windowLines shape = some lines) :
    lines = (List.range shape.rowCount).map fun i : Nat => shape.firstRowFromLiveTop + i := by
  unfold windowLines at h
  simp only [Option.bind_eq_bind, Option.bind_eq_some_iff] at h
  obtain ⟨count, hcount, stop, hstop, h⟩ := h
  obtain ⟨rfl, -⟩ := checkedI64_some hcount
  obtain ⟨rfl, -⟩ := checkedI64_some hstop
  split at h
  · obtain rfl := Option.some.inj h
    have hspan : (shape.firstRowFromLiveTop + (shape.rowCount : Int) -
        shape.firstRowFromLiveTop).toNat = shape.rowCount := by omega
    rw [hspan, bind_pure_comp, List.map_eq_map, List.map_map]
    rfl
  · cases h

theorem TerminalModel.windowLines_isSome (hfirst : -2 ^ 31 ≤ shape.firstRowFromLiveTop)
    (hlast : shape.firstRowFromLiveTop + shape.rowCount ≤ 2 ^ 31) :
    ∃ lines, TerminalModel.windowLines shape = some lines := by
  have hcount : checkedI64 shape.rowCount = some (shape.rowCount : Int) := if_pos (by omega)
  have hstop : checkedI64 (shape.firstRowFromLiveTop + shape.rowCount) =
      some (shape.firstRowFromLiveTop + (shape.rowCount : Int)) := if_pos (by omega)
  unfold windowLines
  rw [hcount, Option.bind_eq_bind, Option.bind_some, hstop, Option.bind_some, bind_pure_comp,
    List.map_eq_map, List.map_map]
  refine ⟨_, if_pos ?_⟩
  simp only [List.all_eq_true, List.mem_map, List.mem_range, Bool.and_eq_true, decide_eq_true_eq]
  rintro _ ⟨i, hi, rfl⟩
  dsimp only [Function.comp_apply]
  omega

def Term.HasLine (t : Term R) (line : Int) : Prop := -t.historySize ≤ line ∧ line < t.screenLines

section Answer

variable {t : TerminalModel R} {q : TerminalHistoryWindowQuery}
  {shape : TerminalHistoryWindowResponseShape} {lines : List Int}

theorem windowLines_in_grid (hs : Presentable t.engine) (ht : t.Tracks)
    (hmain : t.engine.activeScreen = .main) (hshape : q.responseShape t.anchor = some shape)
    (hlines : TerminalModel.windowLines shape = some lines) :
    ∀ line ∈ lines, t.engine.term.HasLine line := by
  obtain ⟨hfirst, hlast, -⟩ := TerminalHistoryWindowQuery.responseShape_within hshape
  have hhistory : t.anchor.maxOffsetFromBottom = t.engine.term.historySize := ht hmain
  have hscreen : t.anchor.viewport.rows = t.engine.term.screenLines :=
    congrArg TerminalSize.rows hs.size_eq
  rw [TerminalModel.windowLines_some hlines]
  intro line hline
  obtain ⟨i, hi, rfl⟩ := List.mem_map.mp hline
  have hi := List.mem_range.mp hi
  unfold Term.HasLine
  omega

variable (t) in
def TerminalModel.windowFrame (shape : TerminalHistoryWindowResponseShape) (lines : List Int) :
    TerminalSurfaceHistoryWindowFrame where
  colors := t.engine.colors.snapshot
  disposition := shape.disposition
  anchor := t.anchor
  targetOffsetFromBottom := shape.targetOffsetFromBottom
  firstRowFromLiveTop := shape.firstRowFromLiveTop
  rows := lines.map fun line => (projectRow t.engine line).toSurfaceRow

/-- The client's check recomputes the shape and finds the frame to have it. -/
theorem windowFrame_valid (hs : Sound Presentable t)
    (hshape : q.responseShape t.anchor = some shape)
    (hlines : TerminalModel.windowLines shape = some lines) :
    (t.windowFrame shape lines).validateFor q = .ok () := by
  have hcolors : t.engine.colors.snapshot.isValidAt t.revision = true :=
    TerminalColorSnapshot.isValidAt_iff.mpr
      ⟨hs.engine.colors.snapshot.profile, hs.stamp, hs.engine.colors.snapshot.sources⟩
  have hsize : validateSurfaceSize t.size = .ok () := by
    rw [validateSurfaceSize_ok]
    unfold TerminalModel.size
    rw [hs.engine.size_eq]
    exact hs.engine.size
  have hcount : (t.windowFrame shape lines).rows.length = shape.rowCount := by
    simp [TerminalModel.windowFrame, TerminalModel.windowLines_some hlines]
  obtain ⟨-, -, hfew⟩ := TerminalHistoryWindowQuery.responseShape_within hshape
  have hrows : checkAll (fun row => validateSurfaceRow row t.size.columns)
      (t.windowFrame shape lines).rows = .ok () := by
    refine checkAll_ok.mpr fun row hrow => ?_
    obtain ⟨line, -, rfl⟩ := List.mem_map.mp hrow
    have hcolumns : t.size.columns = t.engine.term.columns :=
      congrArg TerminalSize.columns hs.engine.size_eq
    rw [hcolumns]
    exact projectRow_valid hs.engine.cells line
  have hsame : ¬((t.windowFrame shape lines).disposition ≠ shape.disposition ∨
      (t.windowFrame shape lines).targetOffsetFromBottom ≠ shape.targetOffsetFromBottom ∨
      (t.windowFrame shape lines).firstRowFromLiveTop ≠ shape.firstRowFromLiveTop ∨
      (t.windowFrame shape lines).rows.length ≠ shape.rowCount ∨
      (t.windowFrame shape lines).rows.length > maxHistoryWindowRows) := by
    rw [hcount]
    simpa [TerminalModel.windowFrame] using hfew
  have hanchor : (t.windowFrame shape lines).anchor = t.anchor := rfl
  unfold TerminalSurfaceHistoryWindowFrame.validateFor
  rw [hanchor, hshape]
  simp only [throwing_ok, bind_ok]
  exact ⟨by simpa [TerminalModel.windowFrame, TerminalModel.anchor] using hcolors, (), hsize, hsame,
    hrows⟩

/-- The answer on the main screen to a valid query no newer than the model: the frame of its
shape and lines, and a gap where one of them is missing. -/
theorem projectHistoryWindow_main (hmain : t.engine.activeScreen = .main) (hv : q.isValid = true)
    (hr : q.anchor.revision ≤ t.revision) :
    (∃ shape lines, q.responseShape t.anchor = some shape ∧
        TerminalModel.windowLines shape = some lines ∧
        t.projectHistoryWindow q = .frame (t.windowFrame shape lines)) ∨
      (∀ shape, q.responseShape t.anchor = some shape →
        TerminalModel.windowLines shape = none) ∧
      t.projectHistoryWindow q = .historyGap t.historyEpoch t.revision := by
  have hcurrent : ¬(!q.isValid || decide (q.anchor.revision > t.revision)) = true := by
    simp [hv, hr]
  have hscreen : ¬t.engine.activeScreen ≠ .main := not_not.mpr hmain
  unfold TerminalModel.projectHistoryWindow
  dsimp only
  rw [if_neg hcurrent, if_neg hscreen]
  -- a variable for the lines, so that no match computes with their 64-bit bounds
  obtain ⟨linesOf, hlinesOf⟩ : ∃ f, TerminalModel.windowLines = f := ⟨_, rfl⟩
  rw [hlinesOf]
  cases hshape : q.responseShape t.anchor with
  | none => exact .inr ⟨nofun, rfl⟩
  | some shape =>
    dsimp only
    cases hlines : linesOf shape with
    | none =>
      refine .inr ⟨fun shape' h => ?_, rfl⟩
      rw [← Option.some.inj h, hlines]
    | some lines => exact .inl ⟨shape, lines, rfl, hlines, rfl⟩

/-- Within the limits and below 2^31 rows of history there is an answer. -/
theorem window_found (hs : Sound Presentable t) (ht : t.Tracks)
    (hmain : t.engine.activeScreen = .main) (hv : q.isValid = true)
    (hr : q.anchor.revision ≤ t.revision) (hq : q.Fits)
    (hasked : q.anchor.viewport.WithinLimits) (hhistory : t.engine.term.historySize < 2 ^ 31) :
    ∃ shape lines, q.responseShape t.anchor = some shape ∧
      TerminalModel.windowLines shape = some lines := by
  have hcount : t.anchor.maxOffsetFromBottom = t.engine.term.historySize := ht hmain
  have hsize : t.anchor.viewport.WithinLimits := by
    have := hs.engine.size
    rwa [← hs.engine.size_eq] at this
  obtain ⟨hrows, hcolumns, hfew, hnarrow⟩ := id hsize
  have hfew : t.anchor.viewport.rows ≤ 80 := hfew
  have hnarrow : t.anchor.viewport.columns ≤ 240 := hnarrow
  have hfits : t.anchor.Fits := ⟨by omega, by omega, by omega⟩
  have hvalid : t.anchor.isValid = true := by
    have hepoch : t.anchor.epoch ≤ t.anchor.revision := hs.epoch
    simp [TerminalHistoryWindowAnchor.isValid, hrows, hcolumns, hepoch]
  have holder := hq.older
  obtain ⟨shape, hshape⟩ := Option.isSome_iff_exists.mp
    (TerminalHistoryWindowQuery.responseShape_isSome hq hfits hv hvalid hr hasked hsize (by omega))
  obtain ⟨hfirst, hlast, -⟩ := TerminalHistoryWindowQuery.responseShape_within hshape
  obtain ⟨lines, hlines⟩ : ∃ lines, TerminalModel.windowLines shape = some lines :=
    TerminalModel.windowLines_isSome (by omega) (by omega)
  exact ⟨shape, lines, hshape, hlines⟩

end Answer

/-- A new grid has no history, also after the first sequence it is fed. -/
def Emulator.StartsEmpty (em : Emulator R) : Prop := ∀ size rows,
  (em.advance (em.init size rows) AlacrittyEngine.alternateScrollOff).1.historySize = 0

theorem TerminalModel.Tracks.new (hem : em.StartsEmpty) {size : TerminalSize}
    {scrollbackRows : Nat} {t : TerminalModel R}
    (h : TerminalModel.new em size scrollbackRows = .ok t) : t.Tracks := by
  unfold TerminalModel.new at h
  split at h
  · cases h
  · obtain rfl := Except.ok.inj h
    intro _
    dsimp only
    rw [new_term]
    exact (hem size scrollbackRows).symm

/-- In every state reached with the main screen shown and no batch held, unless a chunk was
refused for its replies: the rows counted are the grid's history, and a valid query no newer than
the model is refused or answered by lines of the grid with a frame the client accepts. -/
theorem history_windows_answered (em : Emulator R) (hem : em.Lawful) (hempty : em.StartsEmpty)
    (size : TerminalSize) (hsize : size.WithinLimits) (scrollbackRows : Nat)
    (t : TerminalModel R) (hnew : TerminalModel.new em size scrollbackRows = .ok t)
    (ops : List ModelOp) (hops : ∀ size, .resize size ∈ ops → size.WithinLimits)
    (hfit : RepliesFit em t ops) :
    let s := ops.foldl (·.apply em) t
    s.engine.activeScreen = .main → s.synchronized = none →
      s.retainedHistoryRows = s.engine.term.historySize ∧
      s.liveScrollMetrics.map (·.maxOffsetFromBottom) = some s.engine.term.historySize ∧
      ∀ q : TerminalHistoryWindowQuery, q.isValid = true → q.anchor.revision ≤ s.revision →
        (s.historyWindow q = some (.historyGap s.historyEpoch s.revision) ∨
          ∃ frame, ∃ lines : List Int,
            s.historyWindow q = some (.frame frame) ∧ frame.validateFor q = .ok () ∧
            frame.rows = lines.map (fun line => (projectRow s.engine line).toSurfaceRow) ∧
            ∀ line ∈ lines, s.engine.term.HasLine line) ∧
        (q.Fits → q.anchor.viewport.WithinLimits → s.engine.term.historySize < 2 ^ 31 →
          ∃ frame, s.historyWindow q = some (.frame frame)) := by
  intro s hmain hlive
  have hallowed : ∀ op ∈ ops, op.Allowed TerminalSize.WithinLimits := fun op hop => by
    cases op with
    | resize size => exact hops size hop
    | _ => trivial
  have hstart : ModelInv Presentable t :=
    .new (presentable_law hem) hnew (presentable_blank hem hsize scrollbackRows)
  have hs : Sound Presentable s := (hstart.applyAll (presentable_law hem) hallowed).sound
  have hany : ModelInv (fun _ => True) t := .new trivial_law hnew trivial
  have ht : s.Tracks := (TerminalModel.Tracks.new hempty hnew).run hany hfit
  have hwindow : ∀ q, s.historyWindow q = some (s.projectHistoryWindow q) := fun q => by
    simp [TerminalModel.historyWindow, hlive]
  refine ⟨ht hmain, by simp [TerminalModel.liveScrollMetrics, hlive, hmain, ht hmain],
    fun q hv hr => ?_⟩
  rw [hwindow]
  rcases projectHistoryWindow_main hmain hv hr with ⟨shape, lines, hshape, hlines, hframe⟩ |
    ⟨hnone, hgap⟩
  · rw [hframe]
    exact ⟨.inr ⟨_, lines, rfl, windowFrame_valid hs hshape hlines, rfl,
      windowLines_in_grid hs.engine ht hmain hshape hlines⟩, fun _ _ _ => ⟨_, rfl⟩⟩
  · refine ⟨.inl (by rw [hgap]), fun hq hasked hhistory => ?_⟩
    obtain ⟨shape, lines, hshape, hlines⟩ := window_found hs ht hmain hv hr hq hasked hhistory
    cases (hnone shape hshape).symm.trans hlines

theorem scroller_lawful (capacity : Nat) : (scroller capacity).Lawful := by
  have hnarrow : ∀ c : Char, ({ c := c } : Cell).WellFormed := fun c => ⟨nofun, nofun, nofun⟩
  refine ⟨fun _ _ => ⟨rfl, rfl⟩, fun _ _ _ _ => hnarrow _, fun t bytes => ?_, fun t bytes h => ?_,
    fun _ _ => ⟨rfl, rfl⟩, fun _ _ h => h⟩
  · unfold scroller
    dsimp only
    split
    · exact ⟨rfl, rfl⟩
    split
    · exact ⟨rfl, rfl⟩
    · split <;> exact ⟨rfl, rfl⟩
  · unfold scroller
    dsimp only
    split
    · intro line column
      dsimp only
      split
      · exact h _ _
      · exact hnarrow _
    split
    · exact h
    split
    · intro line column
      dsimp only
      split
      · exact hnarrow _
      · exact h _ _
    · exact h

theorem scroller_startsEmpty (capacity : Nat) : (scroller capacity).StartsEmpty := fun _ _ => by
  simp [scroller, typewriter, AlacrittyEngine.alternateScrollOff]

/-- One line up, over the state after `a LF`. -/
def lineQuery : TerminalHistoryWindowQuery := ⟨⟨0, 1, 1, ⟨24, 80⟩⟩, 1, 0, 0⟩

theorem history_windows_answered_line :
    afterLine.retainedHistoryRows = 1 ∧
      ∃ frame, afterLine.historyWindow lineQuery = some (.frame frame) ∧
        frame.validateFor lineQuery = .ok () := by
  have hok : (scrollerStart.ingest (scroller 10) id [0x61, 0x0a]).1.isOk = true := by
    decide +kernel
  have hfit : RepliesFit (scroller 10) scrollerStart [.ingest id [0x61, 0x0a]] := by
    refine ⟨fun clock bytes h he => ?_, trivial⟩
    cases h
    rw [he] at hok
    cases hok
  obtain ⟨-, -, hanswer⟩ := history_windows_answered (scroller 10) (scroller_lawful 10)
    (scroller_startsEmpty 10) ⟨24, 80⟩ (by decide) 10 scrollerStart rfl [.ingest id [0x61, 0x0a]]
    (by simp) hfit (by decide +kernel) (by decide +kernel)
  obtain ⟨hvalid, hfound⟩ := hanswer lineQuery (by decide) (by decide +kernel)
  obtain ⟨frame, hframe⟩ := hfound
    ⟨⟨by decide, by decide, by decide⟩, by decide, by decide, by decide⟩ (by decide)
    (by decide +kernel)
  refine ⟨by decide +kernel, frame, hframe, ?_⟩
  rcases hvalid with hgap | ⟨frame', -, hframe', hok', -⟩
  · exact nomatch hgap.symm.trans hframe
  · cases hframe'.symm.trans hframe
    exact hok'

/-! ## Where the answer is not a window -/

/-- The client refuses a window over a viewport beyond the limits. -/
theorem validateFor_oversized {f : TerminalSurfaceHistoryWindowFrame}
    {q : TerminalHistoryWindowQuery} (hcolors : f.colors.isValidAt f.anchor.revision = true)
    (hsize : ¬f.anchor.viewport.WithinLimits) : f.validateFor q = .error .invalidSize := by
  have hrefused : validateSurfaceSize f.anchor.viewport = .error .invalidSize := by
    have hnot : validateSurfaceSize f.anchor.viewport ≠ .ok () :=
      fun h => hsize (validateSurfaceSize_ok.mp h)
    unfold validateSurfaceSize at hnot ⊢
    dsimp only at hnot ⊢
    split
    · rfl
    · rename_i hfits
      exact absurd (if_neg hfits) hnot
  unfold TerminalSurfaceHistoryWindowFrame.validateFor
  simp only [hcolors, Bool.not_true, Bool.false_eq_true, ↓reduceIte, hrefused]
  rfl

def tallStart : TerminalModel Unit where
  engine := .new typewriter ⟨81, 1⟩ 0
  ingress := {}
  revision := 0
  scrollbackRows := 0
  historyEpoch := 0
  retainedHistoryRows := 0
  synchronized := none

def tallQuery : TerminalHistoryWindowQuery := ⟨⟨0, 0, 0, ⟨81, 1⟩⟩, 0, 0, 0⟩

theorem tall_window_refused :
    ∃ frame, tallStart.historyWindow tallQuery = some (.frame frame) ∧
      frame.validateFor tallQuery = .error .invalidSize := by
  have hshape : tallQuery.responseShape tallStart.anchor = some ⟨.exact, 0, 0, 81⟩ := by
    decide +kernel
  obtain ⟨lines, hlines⟩ : ∃ lines, TerminalModel.windowLines ⟨.exact, 0, 0, 81⟩ = some lines :=
    TerminalModel.windowLines_isSome (by decide) (by decide)
  have hcolors : tallStart.engine.colors.snapshot.isValidAt 0 = true := by decide +kernel
  rcases projectHistoryWindow_main (t := tallStart) (q := tallQuery) rfl (by decide) (by decide)
    with ⟨shape, lines', -, -, hframe⟩ | ⟨hnone, -⟩
  · refine ⟨tallStart.windowFrame shape lines', congrArg some hframe, ?_⟩
    have hsize : ¬tallStart.anchor.viewport.WithinLimits := by decide +kernel
    exact validateFor_oversized hcolors hsize
  · exact nomatch (hnone _ hshape).symm.trans hlines

/-- A line, and queries whose answers do not fit. -/
def lineThenFlood : List UInt8 := 0x61 :: 0x0a :: capabilityFlood

/-- The chunk is refused after its line was fed and before it is counted. -/
theorem flood_leaves_line_uncounted :
    ∃ t, scrollerStart.ingest (scroller 10) id lineThenFlood = (.error .replyOverflow, t) ∧
      t.engine.activeScreen = .main ∧ t.synchronized = none ∧ t.retainedHistoryRows = 0 ∧
      t.engine.term.historySize = 1 := by
  -- the machine before the chunk, after `a` and after the line feed
  let m₀ : Machine Unit := ({ model := scrollerStart, tick := 1 } : Ingest Unit).machine
  let m₁ : Machine Unit := (m₀.processByte (scroller 10) 0x61).2
  let m₂ : Machine Unit := (m₁.processByte (scroller 10) 0x0a).2
  have hidle₁ : Idle m₁ := ⟨rfl, rfl, rfl⟩
  have hidle₂ : Idle m₂ := ⟨rfl, rfl, rfl⟩
  have hbytes : Machine.processUntilBoundary (scroller 10) lineThenFlood m₀ =
      Machine.processUntilBoundary (scroller 10) capabilityFlood m₂ := by
    unfold lineThenFlood
    rw [hidle₁.byte (b := 0x61) rfl, hidle₂.byte (b := 0x0a) rfl]
  obtain ⟨m, hover, hengine⟩ : ∃ m, Machine.processUntilBoundary (scroller 10) capabilityFlood m₂ =
      (.error .replyOverflow, m) ∧ m.engine = m₂.engine :=
    hidle₂.overflows_engine 235 rfl (Nat.zero_le _) (by decide)
  have hexpire : ({ model := scrollerStart } : Ingest Unit).expire id =
      { model := scrollerStart, tick := 1 } := rfl
  have hnext : scrollerStart.nextRevision = .ok 1 := rfl
  have hround := round_overflows hexpire hnext (hbytes.trans hover)
  refine ⟨_, round_fails (List.cons_ne_nil _ _) hround, ?_, rfl, rfl, ?_⟩
  · exact (congrArg AlacrittyEngine.activeScreen hengine).trans rfl
  · have hline : m₂.engine.term.historySize = 1 := by decide +kernel
    exact (congrArg (fun e => e.term.historySize) hengine).trans hline

/-- A model past the surface limits answers with a window the client refuses, and a chunk whose
replies do not fit leaves rows uncounted. -/
theorem windows_unanswerable :
    (typewriter.Lawful ∧ typewriter.StartsEmpty ∧
      TerminalModel.new typewriter ⟨81, 1⟩ 0 = .ok tallStart ∧
      tallStart.engine.activeScreen = .main ∧ tallStart.synchronized = none ∧
      tallQuery.isValid = true ∧ tallQuery.anchor.revision ≤ tallStart.revision ∧
      ∃ frame, tallStart.historyWindow tallQuery = some (.frame frame) ∧
        frame.validateFor tallQuery = .error .invalidSize) ∧
    (scroller 10).Lawful ∧ (scroller 10).StartsEmpty ∧
      TerminalModel.new (scroller 10) ⟨24, 80⟩ 10 = .ok scrollerStart ∧
      ∃ t, scrollerStart.ingest (scroller 10) id lineThenFlood = (.error .replyOverflow, t) ∧
        t.engine.activeScreen = .main ∧ t.synchronized = none ∧ t.retainedHistoryRows = 0 ∧
        t.engine.term.historySize = 1 :=
  ⟨⟨typewriter_lawful, fun _ _ => rfl, rfl, rfl, rfl, by decide, by decide, tall_window_refused⟩,
    scroller_lawful 10, scroller_startsEmpty 10, rfl, flood_leaves_line_uncounted⟩

end Voytty.Terminal
