import Voytty.Terminal.Runs

/-!
# The link table

`terminal/src/hyperlinks.rs` over whole runs: whatever the child sends, the table
stays within its bounds, its byte count is exact, and a projected cell shows only
validated links.
-/

namespace Voytty.Terminal

open Voytty.Lib

variable {R : Type} {em : Emulator R} {v : Vendor}

/-- A table within its bounds, each entry a validated link under its own key. -/
structure Hyperlinks.Accounted (v : Vendor) (links : Hyperlinks) : Prop where
  count : links.values.length ≤ maxTerminalHyperlinks
  bytes : links.bytes = (links.values.map fun p => p.2.payloadBytes).sum
  bounded : links.bytes ≤ maxTerminalHyperlinkBytes
  once : (links.values.map Prod.fst).Nodup
  keyed : ∀ p ∈ links.values, p.1 = ⟨p.2.id, p.2.uri⟩
  validated : ∀ p ∈ links.values, ∃ uri, TerminalHyperlink.new v p.2.id uri = some p.2

theorem Hyperlinks.Accounted.empty : Hyperlinks.Accounted v {} :=
  ⟨Nat.zero_le _, rfl, Nat.zero_le _, List.nodup_nil, by simp, by simp⟩

/-- Entries may be dropped when the bytes are counted again. -/
theorem Hyperlinks.Accounted.retain {links links' : Hyperlinks} (h : links.Accounted v)
    (hvalues : links'.values.Sublist links.values)
    (hbytes : links'.bytes = (links'.values.map fun p => p.2.payloadBytes).sum) :
    links'.Accounted v where
  count := hvalues.length_le.trans h.count
  bytes := hbytes
  bounded := by
    rw [hbytes]
    refine le_trans ?_ (h.bytes ▸ h.bounded)
    exact (hvalues.map _).sum_le_sum fun _ _ => Nat.zero_le _
  once := h.once.sublist (hvalues.map _)
  keyed := fun p hp => h.keyed p (hvalues.subset hp)
  validated := fun p hp => h.validated p (hvalues.subset hp)

theorem reconcile_sublist (e : AlacrittyEngine R) :
    e.reconcileHyperlinks.hyperlinks.values.Sublist e.hyperlinks.values := by
  unfold AlacrittyEngine.reconcileHyperlinks
  dsimp only
  split <;> exact List.filter_sublist

theorem Hyperlinks.Accounted.reconcile {e : AlacrittyEngine R} (h : e.hyperlinks.Accounted v) :
    e.reconcileHyperlinks.hyperlinks.Accounted v :=
  h.retain (reconcile_sublist e) rfl

theorem new_id {id uri : List Char} {l : TerminalHyperlink}
    (h : TerminalHyperlink.new v id uri = some l) : l.id = id := by
  unfold TerminalHyperlink.new at h
  split at h
  · cases h
  split at h
  · cases h
  split at h
  · cases h
  · cases h; rfl

theorem Hyperlinks.Accounted.install {e : AlacrittyEngine R} (h : e.hyperlinks.Accounted v)
    {value : TerminalHyperlink}
    (hvalue : ∃ uri, TerminalHyperlink.new v value.id uri = some value) :
    (e.installLink value).2.hyperlinks.Accounted v := by
  unfold AlacrittyEngine.installLink
  dsimp only
  split
  · exact h
  rename_i hnew
  have hkey : ⟨value.id, value.uri⟩ ∉ e.hyperlinks.values.map Prod.fst := by
    intro hmem
    obtain ⟨p, hp, hk⟩ := List.mem_map.mp hmem
    exact hnew (List.lookup_isSome_iff.mpr ⟨p, hp, by simp [hk]⟩)
  -- reconciling first only drops entries
  have hbefore : ∃ e1, (if e.linksFull value then e.reconcileHyperlinks else e) = e1 ∧
      e1.hyperlinks.Accounted v ∧ e1.hyperlinks.values.Sublist e.hyperlinks.values := by
    split
    · exact ⟨_, rfl, h.reconcile, reconcile_sublist e⟩
    · exact ⟨_, rfl, h, List.Sublist.refl _⟩
  obtain ⟨e1, he1, h1, hsub⟩ := hbefore
  rw [he1]
  split
  · exact h1
  rename_i hfits
  simp only [AlacrittyEngine.linksFull, Bool.or_eq_true, decide_eq_true_eq, not_or, not_le,
    not_lt] at hfits
  have hfresh : ⟨value.id, value.uri⟩ ∉ e1.hyperlinks.values.map Prod.fst :=
    fun hmem => hkey ((hsub.map _).subset hmem)
  exact
    { count := by simpa [AlacrittyEngine.setTemplate] using hfits.1
      bytes := by simp [AlacrittyEngine.setTemplate, h1.bytes]
      bounded := hfits.2
      once := by
        simpa [AlacrittyEngine.setTemplate, List.concat_eq_append] using h1.once.concat hfresh
      keyed := by simpa [AlacrittyEngine.setTemplate, or_imp, forall_and] using h1.keyed
      validated := fun p hp => by
        rcases List.mem_append.mp hp with hp | hp
        · exact h1.validated p hp
        · rw [List.mem_singleton.mp hp]
          exact hvalue }

theorem Hyperlinks.Accounted.setWeb {e : AlacrittyEngine R}
    (h : e.hyperlinks.Accounted em.toVendor) (payload : List Char) :
    (e.setWebHyperlink em payload).2.hyperlinks.Accounted em.toVendor := by
  unfold AlacrittyEngine.setWebHyperlink
  dsimp only
  split
  · exact h
  split
  · exact h
  split
  · exact h
  rename_i id e' hid
  have h' : e'.hyperlinks.Accounted em.toVendor := by
    unfold AlacrittyEngine.linkId at hid
    split at hid
    · cases hid; exact h
    split at hid
    · cases hid
    · cases hid; exact ⟨h.count, h.bytes, h.bounded, h.once, h.keyed, h.validated⟩
  split
  · exact h'
  · rename_i value hvalue
    exact h'.install ⟨_, new_id hvalue ▸ hvalue⟩

/-- Nothing the filter or a resize does to the engine spoils the table. -/
theorem accounted_law : EngineLaw em (fun _ => True)
    fun e => e.hyperlinks.Accounted em.toVendor where
  filter := fun e e' step h => by
    cases step with
    | feed bytes =>
      obtain ⟨_, he⟩ := e.feedRaw_frame em bytes
      rw [he]
      exact h
    | transition bytes =>
      have hfed : ((e.reconcileHyperlinks.reconcileActiveCombiningBudget.advance em bytes
          ).reconcileActiveCombiningBudget).hyperlinks.Accounted em.toVendor := h.reconcile
      exact hfed.reconcile
    | reset => exact .empty
    | locally step =>
      cases step with
      | accept c =>
        obtain ⟨_, he⟩ := e.acceptCharacter_frame em c
        rw [he]
        exact h
      | link payload => exact h.setWeb payload
      | _ => exact h
  mark := fun _ _ h => h
  commit := fun _ _ h => h
  base := fun _ _ _ h => h
  resize := fun e size _ h => by
    unfold AlacrittyEngine.resize AlacrittyEngine.clampCursor
    dsimp only
    split <;> exact Hyperlinks.Accounted.reconcile h

theorem cellHyperlink_mem {e : AlacrittyEngine R} {cell : Cell} {link : TerminalHyperlink}
    (h : e.cellHyperlink cell = some link) : link ∈ e.hyperlinks.values.map Prod.snd := by
  unfold AlacrittyEngine.cellHyperlink at h
  split at h
  · cases h
  · obtain ⟨before, after, hvalues, -⟩ := List.lookup_eq_some_iff.mp h
    simp [hvalues]

/-- The links that the rows show. -/
def Shows (links : List TerminalHyperlink) (rows : List TerminalSurfaceRow) : Prop :=
  ∀ row ∈ rows, ∀ cell ∈ row.cells, ∀ link ∈ cell.hyperlink, link ∈ links

theorem projectLines_shows (e : AlacrittyEngine R) (lines : List Int) :
    Shows (e.hyperlinks.values.map Prod.snd)
      (lines.map fun line => (projectRow e line).toSurfaceRow) := by
  intro row hrow cell hcell link hlink
  obtain ⟨line, -, rfl⟩ := List.mem_map.mp hrow
  simp only [ProjectedRow.toSurfaceRow, projectRow, List.map_map, List.mem_map, Function.comp_apply]
    at hcell
  obtain ⟨column, -, rfl⟩ := hcell
  simp only [ProjectedCell.toPublic, projectCellAt, Option.mem_def] at hlink
  split at hlink
  · exact cellHyperlink_mem hlink
  · unfold projectedCell at hlink
    dsimp only at hlink
    split at hlink <;> cases hlink

theorem project_shows (e : AlacrittyEngine R) :
    Shows (e.hyperlinks.values.map Prod.snd) ((project e).rows.map ProjectedRow.toSurfaceRow) := by
  intro row hrow
  simp only [project, List.map_map, List.mem_map] at hrow
  obtain ⟨line, -, rfl⟩ := hrow
  exact projectLines_shows e [line] _ List.mem_cons_self

/-- The published rows, live or held, show links of an accounted table. -/
theorem snapshot_shows {t : TerminalModel R}
    (h : ModelInv (fun e => e.hyperlinks.Accounted v) t) :
    ∃ links : Hyperlinks, links.Accounted v ∧
      Shows (links.values.map Prod.snd) t.snapshot.surface.rows := by
  unfold TerminalModel.snapshot
  cases hs : t.synchronized with
  | none =>
    rw [checkpoint_live hs]
    exact ⟨_, h.sound.engine, project_shows t.engine⟩
  | some held =>
    obtain ⟨origin, hv⟩ := h.held held hs
    rw [checkpoint_held hs, hv.checkpoint, checkpoint_live hv.live]
    exact ⟨_, hv.sound.engine, project_shows origin.engine⟩

theorem accounted_run {size : TerminalSize} {scrollbackRows : Nat} {t : TerminalModel R}
    (hnew : TerminalModel.new em size scrollbackRows = .ok t) (ops : List ModelOp) :
    ModelInv (fun e => e.hyperlinks.Accounted em.toVendor) (ops.foldl (·.apply em) t) :=
  (ModelInv.new accounted_law hnew .empty).applyAll accounted_law
    fun op _ => by cases op <;> trivial

/-- Whatever the child sends, the table has at most 1,024 links of at most one mebibyte, counted
exactly and each under its own identity, and every link that is published was validated. -/
theorem link_table_accounted (em : Emulator R) (size : TerminalSize) (scrollbackRows : Nat)
    (t : TerminalModel R) (hnew : TerminalModel.new em size scrollbackRows = .ok t)
    (ops : List ModelOp) :
    (ops.foldl (·.apply em) t).engine.hyperlinks.Accounted em.toVendor ∧
      ∀ row ∈ (ops.foldl (·.apply em) t).snapshot.surface.rows, ∀ cell ∈ row.cells,
        ∀ link ∈ cell.hyperlink, ∃ uri,
          TerminalHyperlink.new em.toVendor link.id uri = some link := by
  have hinv := accounted_run hnew ops
  refine ⟨hinv.sound.engine, fun row hrow cell hcell link hlink => ?_⟩
  obtain ⟨links, hlinks, hshows⟩ := snapshot_shows hinv
  obtain ⟨p, hp, rfl⟩ := List.mem_map.mp (hshows row hrow cell hcell link hlink)
  exact hlinks.validated p hp

/-- A typewriter whose cells take the cursor's link; any printable text is a target. -/
def linkwriter : Emulator Unit :=
  { typewriter with
    webUrl := fun uri => if uri.any isControl then none else some uri
    advance := fun t bytes =>
      let (written, events) := typewriter.advance t bytes
      let cell := fun line column =>
        if line = t.cursor.line ∧ column = t.cursor.column then
          { written.cell line column with hyperlink := t.cursor.template.hyperlink }
        else written.cell line column
      ({ written with cell }, events) }

/-- OSC 8 with the target `h`, then a character. -/
def linkedText : List ModelOp := [.ingest id [0x1b, 0x5d, 0x38, 0x3b, 0x3b, 0x68, 0x07, 0x78]]

theorem link_table_accounted_linkwriter :
    ∃ t, TerminalModel.new linkwriter ⟨1, 2⟩ 0 = .ok t ∧
      (linkedText.foldl (·.apply linkwriter) t).engine.hyperlinks.values.length = 1 ∧
      (linkedText.foldl (·.apply linkwriter) t).engine.hyperlinks.Accounted linkwriter.toVendor :=
  ⟨_, rfl, by decide +kernel, (link_table_accounted linkwriter ⟨1, 2⟩ 0 _ rfl linkedText).1⟩

end Voytty.Terminal
