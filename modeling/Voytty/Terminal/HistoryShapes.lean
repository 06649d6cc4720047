import Voytty.Terminal.History

/-!
# The shape of a history window

Rows are numbered from the top of the live screen: history lies above at negative
numbers, the screen at `0` up to its height. A query names a viewport by its offset
from the bottom and asks for margins around it; `Requested` are those rows and
`Retained` the rows there are. `responseShape` computes with checked 64-bit numbers;
`responseShape_eq` says what it computes.
-/

namespace Voytty.Terminal

/-- Field values of the source's widths. -/
structure TerminalHistoryWindowAnchor.Fits (a : TerminalHistoryWindowAnchor) : Prop where
  history : a.maxOffsetFromBottom < 2 ^ 64
  rows : a.viewport.rows < 2 ^ 16
  columns : a.viewport.columns < 2 ^ 16

structure TerminalHistoryWindowQuery.Fits (q : TerminalHistoryWindowQuery) : Prop where
  anchor : q.anchor.Fits
  target : q.targetOffsetFromBottom < 2 ^ 64
  older : q.olderMarginRows < 2 ^ 16
  newer : q.newerMarginRows < 2 ^ 16

/-- A row of the history or the screen. -/
def TerminalHistoryWindowAnchor.Retained (a : TerminalHistoryWindowAnchor) (row : Int) : Prop :=
  -a.maxOffsetFromBottom ≤ row ∧ row < a.viewport.rows

namespace TerminalHistoryWindowQuery

variable {q : TerminalHistoryWindowQuery} {anchor : TerminalHistoryWindowAnchor}

theorem isValid_iff : q.isValid = true ↔ q.anchor.isValid = true ∧
    q.targetOffsetFromBottom ≤ q.anchor.maxOffsetFromBottom ∧
    q.olderMarginRows + q.newerMarginRows ≤ q.anchor.viewport.rows * 2 := by
  simp [isValid, and_assoc]

variable (q anchor)

/-- The target of an answer: the requested rows themselves where they can be known again, and the
nearest offset there is otherwise. -/
def answeredTarget : Nat :=
  if q.isExact anchor then
    q.targetOffsetFromBottom + (anchor.maxOffsetFromBottom - q.anchor.maxOffsetFromBottom)
  else min q.targetOffsetFromBottom anchor.maxOffsetFromBottom

/-- A row of the viewport at `target` or of the margins asked for. -/
def Requested (target : Nat) (row : Int) : Prop :=
  -target - q.olderMarginRows ≤ row ∧ row < -target + anchor.viewport.rows + q.newerMarginRows

def firstRow (target : Nat) : Int := max (-target - q.olderMarginRows) (-anchor.maxOffsetFromBottom)

def stopRow (target : Nat) : Int :=
  min (-target + anchor.viewport.rows + q.newerMarginRows) anchor.viewport.rows

variable {q anchor}

theorem answeredTarget_le (anchor : TerminalHistoryWindowAnchor) (hv : q.isValid = true) :
    q.answeredTarget anchor ≤ anchor.maxOffsetFromBottom := by
  obtain ⟨-, htarget, -⟩ := isValid_iff.mp hv
  unfold answeredTarget
  split
  · rename_i hexact
    have : q.anchor.maxOffsetFromBottom ≤ anchor.maxOffsetFromBottom := by
      simp only [isExact, Bool.and_eq_true, decide_eq_true_eq] at hexact
      exact hexact.2
    omega
  · exact min_le_right _ _

/-- The sum the source checks does not overflow. -/
theorem resolvedTarget_eq (hv : q.isValid = true) (ha : anchor.Fits) :
    q.resolvedTarget anchor = some (q.answeredTarget anchor) := by
  have hle := answeredTarget_le anchor hv
  have hfits := ha.history
  unfold answeredTarget at hle ⊢
  unfold resolvedTarget
  split
  · rename_i hexact
    rw [if_pos hexact] at hle
    dsimp only
    rw [if_pos (hle.trans_lt hfits), min_eq_left hle]
  · rfl

/-- The rows asked for have signed 64-bit numbers. -/
def Numbered (q : TerminalHistoryWindowQuery) (anchor : TerminalHistoryWindowAnchor)
    (target : Nat) : Prop :=
  anchor.maxOffsetFromBottom < 2 ^ 63 ∧ target + q.olderMarginRows ≤ 2 ^ 63

instance (target : Nat) : Decidable (q.Numbered anchor target) :=
  inferInstanceAs (Decidable (_ ∧ _))

theorem clippedRange_eq (hq : q.Fits) (ha : anchor.Fits) {target : Nat}
    (htarget : target ≤ anchor.maxOffsetFromBottom) :
    q.clippedRange anchor target = if q.Numbered anchor target then
      some (q.firstRow anchor target, q.stopRow anchor target) else none := by
  obtain ⟨-, -, holder, hnewer⟩ := hq
  obtain ⟨-, hrows, -⟩ := ha
  have hin : ∀ {n : Int}, -2 ^ 63 ≤ n ∧ n < 2 ^ 63 → checkedI64 n = some n := fun h => if_pos h
  unfold clippedRange
  by_cases hhistory : anchor.maxOffsetFromBottom < 2 ^ 63
  · simp only [bind, hin (show -2 ^ 63 ≤ (anchor.maxOffsetFromBottom : Int) ∧ _ by omega),
      hin (show -2 ^ 63 ≤ (target : Int) ∧ _ by omega),
      hin (show -2 ^ 63 ≤ -(target : Int) ∧ _ by omega),
      hin (show -2 ^ 63 ≤ -(target : Int) + anchor.viewport.rows ∧ _ by omega),
      hin (show -2 ^ 63 ≤ -(anchor.maxOffsetFromBottom : Int) ∧ _ by omega),
      hin (show -2 ^ 63 ≤ -(target : Int) + anchor.viewport.rows + q.newerMarginRows ∧ _ by omega),
      Option.bind_some, pure]
    by_cases holdest : target + q.olderMarginRows ≤ 2 ^ 63
    · have hyes : q.Numbered anchor target := ⟨hhistory, holdest⟩
      rw [hin (by omega), if_pos hyes]
      rfl
    · have hout : checkedI64 (-(target : Int) - q.olderMarginRows) = none := if_neg (by omega)
      have hno : ¬q.Numbered anchor target := fun h => holdest h.2
      rw [hout, if_neg hno]
      rfl
  · have hout : checkedI64 anchor.maxOffsetFromBottom = none := if_neg (by omega)
    have hno : ¬q.Numbered anchor target := fun h => hhistory h.1
    rw [hout, if_neg hno]
    rfl

/-- What an answer's range holds is what was asked for and is there. -/
theorem mem_range {target : Nat} {row : Int} :
    q.firstRow anchor target ≤ row ∧ row < q.stopRow anchor target ↔
      q.Requested anchor target row ∧ anchor.Retained row := by
  unfold firstRow stopRow Requested TerminalHistoryWindowAnchor.Retained
  rw [max_le_iff, lt_min_iff]
  tauto

theorem rows_le_span {target : Nat} (htarget : target ≤ anchor.maxOffsetFromBottom) :
    (anchor.viewport.rows : Int) ≤ q.stopRow anchor target - q.firstRow anchor target := by
  unfold firstRow stopRow
  omega

theorem span_le (q : TerminalHistoryWindowQuery) (anchor : TerminalHistoryWindowAnchor)
    (target : Nat) :
    q.stopRow anchor target - q.firstRow anchor target ≤
      anchor.viewport.rows + q.olderMarginRows + q.newerMarginRows := by
  unfold firstRow stopRow
  omega

def rowCount (q : TerminalHistoryWindowQuery) (anchor : TerminalHistoryWindowAnchor)
    (target : Nat) : Nat :=
  (q.stopRow anchor target - q.firstRow anchor target).toNat

theorem rowCount_le (anchor : TerminalHistoryWindowAnchor) (target : Nat)
    (hv : q.isValid = true) :
    q.rowCount anchor target ≤ anchor.viewport.rows + q.anchor.viewport.rows * 2 := by
  obtain ⟨-, -, hmargins⟩ := isValid_iff.mp hv
  have := span_le q anchor target
  unfold rowCount
  omega

/-- The count is that of the rows asked for that are there. -/
theorem rowCount_eq_ncard (target : Nat) :
    q.rowCount anchor target =
      {row : Int | q.Requested anchor target row ∧ anchor.Retained row}.ncard := by
  have hrange : {row : Int | q.Requested anchor target row ∧ anchor.Retained row} =
      Set.Ico (q.firstRow anchor target) (q.stopRow anchor target) := by
    ext row
    exact mem_range.symm
  rw [hrange, ← Finset.coe_Ico, Set.ncard_coe_finset, Int.card_Ico]
  rfl

/-- All of `response_shape`. -/
theorem responseShape_eq (hq : q.Fits) (ha : anchor.Fits) (hv : q.isValid = true)
    (hav : anchor.isValid = true) (hr : q.anchor.revision ≤ anchor.revision) :
    q.responseShape anchor =
      if q.Numbered anchor (q.answeredTarget anchor) ∧
          q.rowCount anchor (q.answeredTarget anchor) ≤ maxHistoryWindowRows then
        some {
          disposition := if q.isExact anchor then .exact else .rebased
          targetOffsetFromBottom := q.answeredTarget anchor
          firstRowFromLiveTop := q.firstRow anchor (q.answeredTarget anchor)
          rowCount := q.rowCount anchor (q.answeredTarget anchor) }
      else none := by
  have hle := answeredTarget_le anchor hv
  have hlow := rows_le_span (q := q) hle
  have hhigh := span_le q anchor (q.answeredTarget anchor)
  have holder := hq.older
  have hnewer := hq.newer
  have hrows := ha.rows
  have hguard : ¬(!q.isValid || !anchor.isValid ||
      decide (anchor.revision < q.anchor.revision)) := by simp [hv, hav, hr]
  unfold responseShape
  rw [if_neg hguard, resolvedTarget_eq hv ha, Option.bind_eq_bind, Option.bind_some,
    clippedRange_eq hq ha hle]
  generalize q.answeredTarget anchor = target at *
  by_cases hn : q.Numbered anchor target
  · have hchecked : checkedI64 (q.stopRow anchor target - q.firstRow anchor target) =
        some (q.stopRow anchor target - q.firstRow anchor target) := if_pos ⟨by omega, by omega⟩
    have hcount : q.rowCount anchor target =
        (q.stopRow anchor target - q.firstRow anchor target).toNat := rfl
    rw [if_pos hn, Option.bind_eq_bind, Option.bind_some]
    dsimp only
    rw [hchecked, Option.bind_eq_bind, Option.bind_some, ← hcount]
    by_cases hfew : q.rowCount anchor target ≤ maxHistoryWindowRows
    · have hok : ¬(q.stopRow anchor target - q.firstRow anchor target < 0 ∨
          q.rowCount anchor target < anchor.viewport.rows ∨
          q.rowCount anchor target > maxHistoryWindowRows) := by omega
      have hyes : q.Numbered anchor target ∧ q.rowCount anchor target ≤ maxHistoryWindowRows :=
        ⟨hn, hfew⟩
      rw [if_neg hok, if_pos hyes]
      rfl
    · have hmany : q.stopRow anchor target - q.firstRow anchor target < 0 ∨
          q.rowCount anchor target < anchor.viewport.rows ∨
          q.rowCount anchor target > maxHistoryWindowRows := by omega
      have hno : ¬(q.Numbered anchor target ∧ q.rowCount anchor target ≤ maxHistoryWindowRows) :=
        fun h => hfew h.2
      rw [if_pos hmany, if_neg hno]
      rfl
  · have hno : ¬(q.Numbered anchor target ∧ q.rowCount anchor target ≤ maxHistoryWindowRows) :=
      fun h => hn h.1
    rw [if_neg hn, if_neg hno]
    rfl

/-- In the coordinates that count from the oldest row, an exact answer is where the request was. -/
theorem answeredTarget_exact (hv : q.isValid = true) (he : q.isExact anchor = true) :
    (anchor.maxOffsetFromBottom : Int) - q.answeredTarget anchor =
      q.anchor.maxOffsetFromBottom - q.targetOffsetFromBottom := by
  obtain ⟨-, htarget, -⟩ := isValid_iff.mp hv
  have hgrown : q.anchor.maxOffsetFromBottom ≤ anchor.maxOffsetFromBottom := by
    simp only [isExact, Bool.and_eq_true, decide_eq_true_eq] at he
    exact he.2
  unfold answeredTarget
  rw [if_pos he]
  omega

/-- What a shape of an answer at `anchor` says. -/
structure Shapes (q : TerminalHistoryWindowQuery) (anchor : TerminalHistoryWindowAnchor)
    (shape : TerminalHistoryWindowResponseShape) : Prop where
  /-- The rows are those asked for that are there, and no others. -/
  rows (row : Int) :
    shape.firstRowFromLiveTop ≤ row ∧ row < shape.firstRowFromLiveTop + shape.rowCount ↔
      q.Requested anchor shape.targetOffsetFromBottom row ∧ anchor.Retained row
  /-- The whole target viewport is among them. -/
  viewport (row : Int) (hfirst : -shape.targetOffsetFromBottom ≤ row)
    (hlast : row < -shape.targetOffsetFromBottom + anchor.viewport.rows) :
    shape.firstRowFromLiveTop ≤ row ∧ row < shape.firstRowFromLiveTop + shape.rowCount
  atLeast : anchor.viewport.rows ≤ shape.rowCount
  atMost : shape.rowCount ≤ maxHistoryWindowRows
  target : shape.targetOffsetFromBottom ≤ anchor.maxOffsetFromBottom
  exact (he : q.isExact anchor = true) : shape.disposition = .exact ∧
    (anchor.maxOffsetFromBottom : Int) - shape.targetOffsetFromBottom =
      q.anchor.maxOffsetFromBottom - q.targetOffsetFromBottom
  rebased (he : q.isExact anchor = false) : shape.disposition = .rebased ∧
    shape.targetOffsetFromBottom = min q.targetOffsetFromBottom anchor.maxOffsetFromBottom

/-- A query has a shape where the rows asked for have signed numbers and are few enough. -/
theorem responseShape_isSome_iff (hq : q.Fits) (ha : anchor.Fits) (hv : q.isValid = true)
    (hav : anchor.isValid = true) (hr : q.anchor.revision ≤ anchor.revision) :
    (q.responseShape anchor).isSome ↔
      (anchor.maxOffsetFromBottom < 2 ^ 63 ∧
        q.answeredTarget anchor + q.olderMarginRows ≤ 2 ^ 63) ∧
      {row : Int | q.Requested anchor (q.answeredTarget anchor) row ∧
        anchor.Retained row}.ncard ≤ maxHistoryWindowRows := by
  rw [responseShape_eq hq ha hv hav hr, ← rowCount_eq_ncard]
  split
  · rename_i h
    exact iff_of_true rfl h
  · rename_i h
    exact iff_of_false Bool.false_ne_true h

theorem responseShape_shapes (hq : q.Fits) (ha : anchor.Fits) (hv : q.isValid = true)
    (hav : anchor.isValid = true) (hr : q.anchor.revision ≤ anchor.revision)
    {shape : TerminalHistoryWindowResponseShape} (hs : q.responseShape anchor = some shape) :
    q.Shapes anchor shape := by
  rw [responseShape_eq hq ha hv hav hr] at hs
  split at hs
  · rename_i hok
    obtain rfl := Option.some.inj hs
    have hle := answeredTarget_le anchor hv
    have hspan := rows_le_span (q := q) hle
    have hend : q.firstRow anchor (q.answeredTarget anchor) +
        (q.rowCount anchor (q.answeredTarget anchor) : Int) =
          q.stopRow anchor (q.answeredTarget anchor) := by
      unfold rowCount
      omega
    have hrows : ∀ row : Int, q.firstRow anchor (q.answeredTarget anchor) ≤ row ∧
        row < q.firstRow anchor (q.answeredTarget anchor) +
          (q.rowCount anchor (q.answeredTarget anchor) : Int) ↔
        q.Requested anchor (q.answeredTarget anchor) row ∧ anchor.Retained row := by
      intro row
      rw [hend]
      exact mem_range
    refine ⟨hrows, fun row hfirst hlast => (hrows row).mpr ⟨?_, ?_⟩, ?_, hok.2, hle, ?_, ?_⟩
    · dsimp only at hfirst hlast
      unfold Requested
      omega
    · dsimp only at hfirst hlast
      unfold TerminalHistoryWindowAnchor.Retained
      omega
    · dsimp only
      unfold rowCount
      omega
    · intro he
      exact ⟨if_pos he, answeredTarget_exact hv he⟩
    · intro he
      have hne : ¬q.isExact anchor = true := by simp [he]
      exact ⟨if_neg hne, if_neg hne⟩
  · cases hs

/-- Three screens of the largest size are just within the limit. -/
theorem responseShape_isSome (hq : q.Fits) (ha : anchor.Fits) (hv : q.isValid = true)
    (hav : anchor.isValid = true) (hr : q.anchor.revision ≤ anchor.revision)
    (hasked : q.anchor.viewport.WithinLimits) (hsize : anchor.viewport.WithinLimits)
    (hhistory : anchor.maxOffsetFromBottom + q.olderMarginRows < 2 ^ 63) :
    (q.responseShape anchor).isSome := by
  have hle := answeredTarget_le anchor hv
  have hcount := rowCount_le anchor (q.answeredTarget anchor) hv
  have hasked' : q.anchor.viewport.rows ≤ 80 := hasked.2.2.1
  have hsize' : anchor.viewport.rows ≤ 80 := hsize.2.2.1
  rw [responseShape_isSome_iff hq ha hv hav hr, ← rowCount_eq_ncard]
  refine ⟨⟨by omega, by omega⟩, ?_⟩
  unfold maxHistoryWindowRows
  omega

/-- An answer's shape, and when there is one. -/
theorem response_shape_sound (q : TerminalHistoryWindowQuery)
    (anchor : TerminalHistoryWindowAnchor) (hq : q.Fits) (ha : anchor.Fits)
    (hv : q.isValid = true) (hav : anchor.isValid = true)
    (hr : q.anchor.revision ≤ anchor.revision) :
    ((q.responseShape anchor).isSome ↔
      (anchor.maxOffsetFromBottom < 2 ^ 63 ∧
        q.answeredTarget anchor + q.olderMarginRows ≤ 2 ^ 63) ∧
      {row : Int | q.Requested anchor (q.answeredTarget anchor) row ∧
        anchor.Retained row}.ncard ≤ maxHistoryWindowRows) ∧
    (q.anchor.viewport.WithinLimits → anchor.viewport.WithinLimits →
      anchor.maxOffsetFromBottom + q.olderMarginRows < 2 ^ 63 →
        (q.responseShape anchor).isSome) ∧
    ∀ shape, q.responseShape anchor = some shape → q.Shapes anchor shape :=
  ⟨responseShape_isSome_iff hq ha hv hav hr, responseShape_isSome hq ha hv hav hr,
    fun _ hs => responseShape_shapes hq ha hv hav hr hs⟩

end TerminalHistoryWindowQuery

/-- A history of `history` rows over a screen of `rows`. -/
def sampleAnchor (rows revision history : Nat) : TerminalHistoryWindowAnchor :=
  ⟨1, revision, history, ⟨rows, 80⟩⟩

/-- After ten more rows an answer is ten rows further up. -/
theorem response_shape_sound_grown :
    (⟨sampleAnchor 24 3 100, 40, 24, 24⟩ : TerminalHistoryWindowQuery).responseShape
        (sampleAnchor 24 5 110) = some ⟨.exact, 50, -74, 72⟩ ∧
      TerminalHistoryWindowQuery.Shapes ⟨sampleAnchor 24 3 100, 40, 24, 24⟩
        (sampleAnchor 24 5 110) ⟨.exact, 50, -74, 72⟩ :=
  have hs : (⟨sampleAnchor 24 3 100, 40, 24, 24⟩ : TerminalHistoryWindowQuery).responseShape
      (sampleAnchor 24 5 110) = some ⟨.exact, 50, -74, 72⟩ := by decide +kernel
  ⟨hs, (TerminalHistoryWindowQuery.response_shape_sound _ _
    ⟨⟨by decide, by decide, by decide⟩, by decide, by decide, by decide⟩
    ⟨by decide, by decide, by decide⟩ (by decide) (by decide) (by decide)).2.2 _ hs⟩

/-- Margins of two screens are valid, but three screens of 81 rows are over the limit. -/
theorem valid_query_without_shape :
    ∃ (q : TerminalHistoryWindowQuery) (anchor : TerminalHistoryWindowAnchor),
      q.Fits ∧ anchor.Fits ∧ q.isValid = true ∧ q.anchor = anchor ∧
        q.responseShape anchor = none :=
  ⟨⟨sampleAnchor 81 1 1000, 500, 81, 81⟩, sampleAnchor 81 1 1000,
    ⟨⟨by decide, by decide, by decide⟩, by decide, by decide, by decide⟩,
    ⟨by decide, by decide, by decide⟩, by decide, rfl, by decide +kernel⟩

end Voytty.Terminal
