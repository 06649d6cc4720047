import Voytty.Terminal.Projection

/-!
# The text of projected cells

A narrow cell, or a wide head with its spacer beside it, is shown as its own character
followed by its combining marks, as many of the leading ones as the inline text holds.
Two characters are not shown: the space of a plain blank, which is the empty text, and a
control character.
-/

namespace Voytty.Terminal

open Voytty.Lib

variable {R : Type}

/-- The marks kept are the longest leading part that fits. -/
theorem InlineCellText.pushAll_longest (t : InlineCellText) (cs : List Char) :
    ∃ kept, kept <+: cs ∧ (t.pushAll cs).chars = t.chars ++ kept ∧
      ∀ more, more <+: cs → byteLen (t.chars ++ more) ≤ maxCellTextBytes → more <+: kept := by
  induction cs generalizing t with
  | nil => exact ⟨[], List.nil_prefix, by simp [pushAll], fun more hm _ => hm⟩
  | cons c cs ih =>
    by_cases hfits : byteLen t.chars + c.utf8Size ≤ maxCellTextBytes
    · obtain ⟨kept, hkept, hchars, hlongest⟩ := ih ⟨t.chars ++ [c], by simpa using hfits⟩
      have hpush : (t.pushAll (c :: cs)) = InlineCellText.pushAll ⟨t.chars ++ [c],
          by simpa using hfits⟩ cs := by
        rw [pushAll, push, dif_pos hfits]
      refine ⟨c :: kept, List.cons_prefix_cons.mpr ⟨rfl, hkept⟩, by simp [hpush, hchars], ?_⟩
      intro more hm hmore
      cases more with
      | nil => exact List.nil_prefix
      | cons d more =>
        obtain ⟨rfl, hrest⟩ := List.cons_prefix_cons.mp hm
        refine List.cons_prefix_cons.mpr ⟨rfl, hlongest more hrest ?_⟩
        simpa using hmore
    · have hpush : t.pushAll (c :: cs) = t := by
        rw [pushAll, push, dif_neg hfits]
      refine ⟨[], List.nil_prefix, by simp [hpush], ?_⟩
      intro more hm hmore
      cases more with
      | nil => exact List.nil_prefix
      | cons d more =>
        obtain ⟨rfl, -⟩ := List.cons_prefix_cons.mp hm
        simp only [byteLen_append, byteLen_cons] at hmore
        omega

def Cell.PlainBlank (cell : Cell) : Prop :=
  cell.c = ' ' ∧ cell.zerowidth = [] ∧ terminalStyle cell = {} ∧ cell.flags.wideChar = false

def Term.Whole (t : Term R) (line : Int) (column : Nat) : Prop :=
  ((t.cell line column).flags.wideChar = false ∧
    (t.cell line column).flags.wideCharSpacer = false) ∨
  ((t.cell line column).flags.isHead = true ∧ column + 1 < t.columns ∧
    (t.cell line (column + 1)).flags.isSpacer = true)

variable {line : Int} {column : Nat}

theorem Term.Whole.spacer {t : Term R} (h : t.Whole line column) :
    (t.cell line column).flags.wideCharSpacer = false := by
  rcases h with h | ⟨h, -⟩
  · exact h.2
  · simp only [Flags.isHead, Bool.and_eq_true, Bool.not_eq_true'] at h
    exact h.2

theorem Term.Whole.paired {t : Term R} (h : t.Whole line column) :
    wideFlagsPaired t line column = true := by
  rcases h with ⟨hw, hs⟩ | ⟨hh, hcolumn, hspacer⟩
  · simp [wideFlagsPaired, Flags.isHead, Flags.isSpacer, hw, hs]
  · simp [wideFlagsPaired, hh, hcolumn, hspacer]

/-- What is shown of a cell's own character. -/
structure Cell.Shows (cell : Cell) (base : List Char) : Prop where
  blank : cell.PlainBlank → base = []
  control : isControl cell.c = true → base = []
  own : ¬cell.PlainBlank → isControl cell.c = false → base = [cell.c]

/-- `text` is what is shown of the cell: its own character, and the leading marks that fit. -/
def Cell.ShownAs (cell : Cell) (text : List Char) : Prop :=
  ∃ base kept, text = base ++ kept ∧ cell.Shows base ∧ kept <+: cell.zerowidth ∧
    ∀ more, more <+: cell.zerowidth → byteLen (base ++ more) ≤ maxCellTextBytes → more <+: kept

theorem projectedCell_shown {cell : Cell} (hs : cell.flags.wideCharSpacer = false) :
    cell.ShownAs (projectedCell cell true).text.chars := by
  have hblank : (cell.c == ' ' && cell.zerowidth.isEmpty && terminalStyle cell == {} &&
      !cell.flags.wideChar && !cell.flags.wideCharSpacer) = true ↔ cell.PlainBlank := by
    simp [Cell.PlainBlank, hs, and_assoc]
  simp only [projectedCell, Bool.not_true, Bool.false_eq_true, ↓reduceIte]
  split
  · rename_i hown
    simp only [Bool.and_eq_true, Bool.not_eq_true', ← Bool.not_eq_true, hblank] at hown
    obtain ⟨kept, hkept, hchars, hlongest⟩ :=
      InlineCellText.pushAll_longest (InlineCellText.empty.push cell.c).2 cell.zerowidth
    rw [InlineCellText.empty_push] at hchars hlongest
    exact ⟨[cell.c], kept, hchars, ⟨fun h => absurd h hown.1.1, fun h => absurd h hown.2,
      fun _ _ => rfl⟩, hkept, hlongest⟩
  · rename_i hown
    simp only [Bool.and_eq_true, Bool.not_eq_true', ← Bool.not_eq_true, hblank] at hown
    obtain ⟨kept, hkept, hchars, hlongest⟩ :=
      InlineCellText.pushAll_longest .empty cell.zerowidth
    refine ⟨[], kept, hchars, ⟨fun _ => rfl, fun _ => rfl, fun hb hc => ?_⟩, hkept, hlongest⟩
    exact absurd ⟨⟨hb, by simp [hs]⟩, by simp [hc]⟩ hown

theorem projectRow_shows {e : AlacrittyEngine R} (hcolumn : column < e.term.columns)
    (hwhole : e.term.Whole line column) :
    ∃ cell, (projectRow e line).toSurfaceRow.cells[column]? = some cell ∧
      (e.term.cell line column).ShownAs cell.contents := by
  refine ⟨_, (projectRow_cell ..).trans (if_pos hcolumn), ?_⟩
  have htext := (projectCellAt_flags e line column).2.2
  rw [hwhole.paired] at htext
  have := projectedCell_shown hwhole.spacer
  rw [← htext] at this
  exact this

/-- A row of the grid as the client gets it. -/
theorem project_row_faithful (e : AlacrittyEngine R) (line : Int)
    (hw : ∀ column < e.term.columns, (e.term.cell line column).WellFormed) :
    validateSurfaceRow (projectRow e line).toSurfaceRow e.term.columns = .ok () ∧
      (projectRow e line).toSurfaceRow.cells.length = e.term.columns ∧
      (∀ cell ∈ (projectRow e line).toSurfaceRow.cells,
        byteLen cell.contents ≤ maxCellTextBytes) ∧
      ∀ column < e.term.columns, e.term.Whole line column →
        ∃ cell, (projectRow e line).toSurfaceRow.cells[column]? = some cell ∧
          (e.term.cell line column).ShownAs cell.contents := by
  refine ⟨projectRow_accepted hw, ?_, ?_, fun column hcolumn hwhole =>
    projectRow_shows hcolumn hwhole⟩
  · simp [projectRow, ProjectedRow.toSurfaceRow]
  · intro cell hcell
    obtain ⟨projected, -, rfl⟩ := List.mem_map.mp hcell
    exact projected.text.fits

def rowEngine (cells : List Cell) : AlacrittyEngine Unit where
  applicationTitle := []
  colors := .default
  gridInput := false
  term := {
    mode := {}
    cursorShape := .block
    cursorBlinking := false
    cursor := {}
    savedTemplate := {}
    screenLines := 1
    columns := cells.length
    historySize := 0
    cell := fun _ column => cells.getD column {}
    hidden := () }
  sink := {}
  legacyX10Mouse := false
  combining := {}
  hyperlinks := {}
  fed := []

/-- A wide pair, a letter with a mark, and a head that the margin cut off. -/
def clippedRow : List Cell :=
  [{ c := '漢', flags := { wideChar := true } }, { flags := { wideCharSpacer := true } },
    { c := 'e', zerowidth := [Char.ofNat 0x301] }, { c := '漢', flags := { wideChar := true } }]

theorem project_row_faithful_clipped :
    (projectRow (rowEngine clippedRow) 0).toSurfaceRow.cells.map (·.contents) =
      [['漢'], [], ['e', Char.ofNat 0x301], []] ∧
    validateSurfaceRow (projectRow (rowEngine clippedRow) 0).toSurfaceRow 4 = .ok () := by
  refine ⟨by decide +kernel, (project_row_faithful (rowEngine clippedRow) 0 ?_).1⟩
  have hcells : ∀ cell ∈ clippedRow, cell.WellFormed := by
    intro cell hcell
    simp only [clippedRow, List.mem_cons, List.not_mem_nil, or_false] at hcell
    rcases hcell with rfl | rfl | rfl | rfl
    · exact ⟨fun _ => by decide, by simp, by simp⟩
    · exact ⟨by simp, by simp, by simp⟩
    · exact ⟨by simp, by simp; decide, by simp⟩
    · exact ⟨fun _ => by decide, by simp, by simp⟩
  intro column hcolumn
  have hmem : clippedRow.getD column {} ∈ clippedRow := by
    rw [List.getD_eq_getElem _ _ hcolumn]
    exact List.getElem_mem hcolumn
  exact hcells _ hmem

/-- A plain blank is whole and well formed, and its space is not in the text. -/
theorem blank_keeps_no_character :
    (rowEngine [{}]).term.Whole 0 0 ∧ ((rowEngine [{}]).term.cell 0 0).WellFormed ∧
      ((rowEngine [{}]).term.cell 0 0).c = ' ' ∧
      (projectRow (rowEngine [{}]) 0).toSurfaceRow.cells.map (·.contents) = [[]] :=
  ⟨.inl ⟨rfl, rfl⟩, ⟨nofun, nofun, nofun⟩, rfl, by decide +kernel⟩

end Voytty.Terminal
