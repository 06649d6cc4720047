import Voytty.Terminal.Surface

/-!
# What the surface checks accept

`validate_surface_row` looks at one cell and its two neighbours at a time. The rows it
accepts are those that can be read from left to right as narrow cells and pairs of a wide
head and its continuation (`WidePairs`), with valid text in every cell. A delta that is
valid and fits a valid baseline gives a surface that is valid again, so the last check of
`candidate` never fails.
-/

namespace Voytty.Terminal

open Voytty.Lib

/-! ## Rows -/

/-- The text a cell may hold: short, printable, there in a wide head and none in its
continuation. -/
structure TerminalCell.TextValid (cell : TerminalCell) : Prop where
  fits : byteLen cell.contents ≤ maxCellTextBytes
  printable : ∀ c ∈ cell.contents, isControl c = false
  head : cell.wide = true → cell.contents ≠ []
  continuation : cell.wideContinuation = true → cell.contents = []

/-- Cells that read from left to right as narrow cells and complete wide pairs. -/
inductive WidePairs : List TerminalCell → Prop where
  | nil : WidePairs []
  | narrow {cell : TerminalCell} {rest : List TerminalCell} (hw : cell.wide = false)
      (hc : cell.wideContinuation = false) (hrest : WidePairs rest) : WidePairs (cell :: rest)
  | pair {head continuation : TerminalCell} {rest : List TerminalCell} (hw : head.wide = true)
      (hc : head.wideContinuation = false) (hnw : continuation.wide = false)
      (hnc : continuation.wideContinuation = true) (hrest : WidePairs rest) :
      WidePairs (head :: continuation :: rest)

/-- What the check of one cell asks of it and its neighbours. -/
structure CellAccepted (cells : List TerminalCell) (column : Nat) (cell : TerminalCell) :
    Prop where
  text : cell.TextValid
  one : cell.wide = true → cell.wideContinuation = false
  next : cell.wide = true → ∃ next, cells[column + 1]? = some next ∧
    next.wideContinuation = true ∧ next.wide = false
  previous : cell.wideContinuation = true → column ≠ 0 ∧ ∃ previous,
    cells[column - 1]? = some previous ∧ previous.wide = true ∧ previous.wideContinuation = false

variable {cell : TerminalCell} {done : List TerminalCell} {β : Type}

theorem validateSurfaceCell_ok_iff {cells : List TerminalCell} {column : Nat} :
    validateSurfaceCell cells column cell = .ok () ↔ CellAccepted cells column cell := by
  constructor
  · intro h
    unfold validateSurfaceCell at h
    split at h
    · cases h
    rename_i htext
    simp only [Bool.or_eq_true, decide_eq_true_eq, not_or, not_lt, Bool.not_eq_true,
      List.any_eq_false] at htext
    split at h
    · cases h
    rename_i hboth
    simp only [Bool.and_eq_true, not_and, Bool.not_eq_true] at hboth
    have hprintable : ∀ c ∈ cell.contents, isControl c = false := htext.2
    split at h
    · rename_i hw
      have hc := hboth hw
      cases hnext : cells[column + 1]? with
      | none => simp [hnext] at h
      | some next =>
        simp only [hnext] at h
        split at h
        · cases h
        rename_i hok
        simp only [Bool.or_eq_true, List.isEmpty_iff, Bool.not_eq_true', not_or,
          Bool.not_eq_false, Bool.not_eq_true] at hok
        exact ⟨⟨htext.1, hprintable, fun _ => hok.1, fun hc' => absurd hc' (by simp [hc])⟩, hboth,
          fun _ => ⟨next, hnext, hok.2⟩, fun hc' => absurd hc' (by simp [hc])⟩
    · rename_i hw
      have hcontinues : cell.wideContinuation = true → cell.contents = [] ∧ column ≠ 0 ∧
          ∃ previous, cells[column - 1]? = some previous ∧ previous.wide = true ∧
            previous.wideContinuation = false := by
        intro hc
        cases hprev : cells[column - 1]? with
        | none => simp [hprev, hc] at h
        | some previous =>
          simp only [hprev, hc, Bool.true_and] at h
          split at h
          · cases h
          rename_i hok
          simp only [Bool.or_eq_true, Bool.not_eq_true', not_or, Bool.not_eq_false,
            List.isEmpty_iff, beq_iff_eq, Bool.not_eq_true] at hok
          exact ⟨hok.1.1, hok.1.2, previous, rfl, hok.2⟩
      exact ⟨⟨htext.1, hprintable, fun hw' => absurd hw' hw, fun hc => (hcontinues hc).1⟩, hboth,
        fun hw' => absurd hw' hw, fun hc => (hcontinues hc).2⟩
  · intro h
    have hprintable : cell.contents.any isControl = false := by
      simpa using h.text.printable
    cases hw : cell.wide with
    | true =>
      obtain ⟨next, hnext, hnc, hnw⟩ := h.next hw
      exact validateSurfaceCell_head h.text.fits hprintable hw (h.one hw) (h.text.head hw) hnext
        hnc hnw
    | false =>
      cases hc : cell.wideContinuation with
      | false => exact validateSurfaceCell_narrow h.text.fits hprintable hw hc
      | true =>
        obtain ⟨hpos, previous, hprev, hpw, hpc⟩ := h.previous hc
        exact validateSurfaceCell_continuation hw (h.text.continuation hc) hpos hprev hpw hpc

/-- The cells of `rest` are accepted where they stand, after `done`. -/
def AcceptedAfter (done rest : List TerminalCell) : Prop :=
  ∀ i cell, rest[i]? = some cell → CellAccepted (done ++ rest) (done.length + i) cell

theorem AcceptedAfter.first {rest : List TerminalCell} (h : AcceptedAfter done (cell :: rest)) :
    CellAccepted (done ++ cell :: rest) done.length cell := h 0 cell rfl

theorem AcceptedAfter.rest {rest : List TerminalCell} (h : AcceptedAfter done (cell :: rest)) :
    AcceptedAfter (done ++ [cell]) rest := by
  intro i c hc
  have := h (i + 1) c hc
  rw [List.append_assoc, List.length_append, List.length_singleton, Nat.add_assoc,
    Nat.add_comm 1 i]
  exact this

theorem AcceptedAfter.cons {rest : List TerminalCell}
    (hcell : CellAccepted (done ++ cell :: rest) done.length cell)
    (hrest : AcceptedAfter (done ++ [cell]) rest) : AcceptedAfter done (cell :: rest) := by
  intro i c hc
  cases i with
  | zero =>
    obtain rfl := Option.some.inj hc
    exact hcell
  | succ i =>
    have := hrest i c hc
    rw [List.append_assoc, List.length_append, List.length_singleton, Nat.add_assoc,
      Nat.add_comm 1 i] at this
    exact this

/-- The last cell read is no head that waits for its continuation. -/
def Settled (done : List TerminalCell) : Prop :=
  ∀ cell, done.getLast? = some cell → cell.wide = true → cell.wideContinuation = true

theorem getElem?_before {rest : List TerminalCell} (hpos : done.length ≠ 0) :
    (done ++ rest)[done.length - 1]? = done.getLast? := by
  rw [List.getElem?_append_left (by omega), List.getLast?_eq_getElem?]

theorem getElem?_after (done rest : List TerminalCell) (cell : TerminalCell) :
    (done ++ cell :: rest)[done.length + 1]? = rest.head? := by
  rw [List.getElem?_append_right (by omega), Nat.add_sub_cancel_left, List.getElem?_cons_succ,
    List.head?_eq_getElem?]

theorem AcceptedAfter.no_continuation {rest : List TerminalCell}
    (h : AcceptedAfter done (cell :: rest)) (hs : Settled done) :
    cell.wideContinuation = false := by
  by_contra hc
  obtain ⟨hpos, previous, hprev, hpw, hpc⟩ := h.first.previous (Bool.eq_true_of_not_eq_false hc)
  rw [getElem?_before hpos] at hprev
  rw [hs previous hprev hpw] at hpc
  cases hpc

theorem settled_append_narrow (done : List TerminalCell) (hw : cell.wide = false) :
    Settled (done ++ [cell]) := by
  intro last hlast hw'
  rw [List.getLast?_concat, Option.some.injEq] at hlast
  rw [← hlast, hw] at hw'
  cases hw'

-- The cells are read from the left; a head takes its continuation with it, so the induction
-- is on the number of cells left.
theorem AcceptedAfter.widePairs {n : Nat} {rest : List TerminalCell} (hn : rest.length ≤ n)
    (hs : Settled done) (h : AcceptedAfter done rest) : WidePairs rest := by
  induction n generalizing done rest with
  | zero =>
    rw [List.length_eq_zero_iff.mp (Nat.le_zero.mp hn)]
    exact .nil
  | succ n ih =>
    cases rest with
    | nil => exact .nil
    | cons cell rest =>
      rw [List.length_cons] at hn
      have hc := h.no_continuation hs
      cases hw : cell.wide with
      | false => exact .narrow hw hc (ih (by omega) (settled_append_narrow done hw) h.rest)
      | true =>
        obtain ⟨next, hnext, hnc, hnw⟩ := h.first.next hw
        rw [getElem?_after] at hnext
        cases rest with
        | nil => cases hnext
        | cons continuation rest =>
          obtain rfl := Option.some.inj hnext
          rw [List.length_cons] at hn
          exact .pair hw hc hnw hnc (ih (by omega) (settled_append_narrow _ hnw) h.rest.rest)

theorem WidePairs.acceptedAfter {rest : List TerminalCell} (h : WidePairs rest)
    (htext : ∀ cell ∈ rest, cell.TextValid) (done : List TerminalCell) :
    AcceptedAfter done rest := by
  induction h generalizing done with
  | nil =>
    intro i cell hcell
    cases hcell
  | narrow hw hc hrest ih =>
    refine .cons ⟨htext _ List.mem_cons_self, ?_, ?_, ?_⟩
      (ih (fun c hc => htext c (List.mem_cons_of_mem _ hc)) _)
    · simp [hw]
    · simp [hw]
    · simp [hc]
  | pair hw hc hnw hnc hrest ih =>
    rename_i head continuation rest
    have hlater : ∀ c ∈ rest, c.TextValid := fun c hc =>
      htext c (List.mem_cons_of_mem _ (List.mem_cons_of_mem _ hc))
    refine .cons ⟨htext _ List.mem_cons_self, fun _ => hc, fun _ => ⟨continuation, ?_, hnc, hnw⟩,
      ?_⟩ (.cons ⟨htext _ (List.mem_cons_of_mem _ List.mem_cons_self), ?_, ?_,
        fun _ => ⟨?_, head, ?_, hw, hc⟩⟩ (ih hlater _))
    · rw [getElem?_after]
      rfl
    · simp [hc]
    · simp [hnw]
    · simp [hnw]
    · simp
    · rw [getElem?_before (by simp), List.getLast?_concat]

/-- The rows a client accepts. -/
theorem validateSurfaceRow_ok_iff {row : TerminalSurfaceRow} {columns : Nat} :
    validateSurfaceRow row columns = .ok () ↔
      row.cells.length = columns ∧ WidePairs row.cells ∧ ∀ cell ∈ row.cells, cell.TextValid := by
  have hcells : checkAll (fun p => validateSurfaceCell row.cells p.2 p.1) row.cells.zipIdx =
      .ok () ↔ AcceptedAfter [] row.cells := by
    rw [checkAll_ok]
    constructor
    · intro h i cell hcell
      rw [List.nil_append, List.length_nil, Nat.zero_add]
      exact validateSurfaceCell_ok_iff.mp
        (h (cell, i) (List.mk_mem_zipIdx_iff_getElem?.mpr hcell))
    · rintro h ⟨cell, i⟩ hmem
      have := h i cell (List.mk_mem_zipIdx_iff_getElem?.mp hmem)
      rw [List.nil_append, List.length_nil, Nat.zero_add] at this
      exact validateSurfaceCell_ok_iff.mpr this
  unfold validateSurfaceRow
  split
  · rename_i hlength
    exact iff_of_false (fun h => nomatch h) (fun h => hlength h.1)
  · rename_i hlength
    rw [hcells]
    constructor
    · intro h
      refine ⟨not_not.mp hlength, h.widePairs le_rfl ?_, ?_⟩
      · intro _ hlast
        cases hlast
      · intro cell hmem
        obtain ⟨i, hi⟩ := List.getElem?_of_mem hmem
        exact (h i cell hi).text
    · rintro ⟨-, hpairs, htext⟩
      exact hpairs.acceptedAfter htext []

/-! ## Surfaces -/

/-- A check that throws is passed when its condition does not hold. -/
theorem throwing_ok {ε α : Type} {c : Prop} [Decidable c] {e : ε} {f : α → Except ε β}
    {k : Except ε β} {b : β} :
    (if c then throw e >>= f else k) = .ok b ↔ ¬c ∧ k = .ok b := by
  split
  · rename_i hc
    exact iff_of_false (fun h => nomatch h) (fun h => h.1 hc)
  · rename_i hc
    exact ⟨fun h => ⟨hc, h⟩, fun h => h.2⟩

theorem TerminalSurface.validate_ok_iff {s : TerminalSurface} {revision : Nat} :
    s.validate revision = .ok () ↔ s.Valid revision := by
  refine ⟨fun h => ?_, TerminalSurface.Valid.validate⟩
  unfold TerminalSurface.validate at h
  dsimp only at h
  simp only [throwing_ok, bind_ok] at h
  obtain ⟨hcolors, htitle, _, hsize, hcount, _, hrows, hcursor, hmetrics⟩ := h
  exact {
    colors := by simpa using hcolors
    title := by simpa using htitle
    size := validateSurfaceSize_ok.mp hsize
    rowCount := not_not.mp hcount
    rows := checkAll_ok.mp hrows
    cursorRow := by omega
    cursorColumn := by omega
    metrics := hmetrics }

theorem validateRowPatches_rows {size : TerminalSize} {previous : Option Nat}
    {patches : List TerminalSurfaceRowPatch}
    (h : validateRowPatches size previous patches = .ok ()) :
    ∀ p ∈ patches, p.row < size.rows ∧
      validateSurfaceRow p.replacement size.columns = .ok () := by
  induction patches generalizing previous with
  | nil => simp
  | cons p ps ih =>
    unfold validateRowPatches at h
    split at h
    · cases h
    rename_i hplace
    split at h
    · cases h
    rename_i hrow
    intro q hq
    rcases List.mem_cons.mp hq with rfl | hq
    · exact ⟨by omega, hrow⟩
    · exact ih h q hq

theorem length_patch (ps : List (Nat × β)) (zs : List β) :
    (patch ps zs).length = zs.length := by
  induction ps generalizing zs with
  | nil => rfl
  | cons p ps ih => exact (ih (zs.set p.1 p.2)).trans List.length_set

theorem mem_patch {ps : List (Nat × β)} {zs : List β} {z : β} (h : z ∈ patch ps zs) :
    z ∈ zs ∨ ∃ p ∈ ps, p.2 = z := by
  induction ps generalizing zs with
  | nil => exact .inl h
  | cons p ps ih =>
    have hrest : z ∈ zs.set p.1 p.2 ∨ ∃ q ∈ ps, q.2 = z := ih h
    rcases hrest with hz | ⟨q, hq, rfl⟩
    · rcases List.mem_or_eq_of_mem_set hz with hz | rfl
      · exact .inl hz
      · exact .inr ⟨p, List.mem_cons_self, rfl⟩
    · exact .inr ⟨q, List.mem_cons_of_mem _ hq, rfl⟩

namespace TerminalSurfaceDelta

variable {d : TerminalSurfaceDelta} {revision : Nat} {baseline surface : TerminalSurface}

def patched (d : TerminalSurfaceDelta) (baseline : TerminalSurface) : TerminalSurface :=
  { baseline with
    rows := d.patchRows baseline.rows
    applicationTitle := d.applicationTitle
    colors := d.colors
    cursor := d.cursor
    modes := d.modes
    scrollMetrics := d.scrollMetrics }

theorem incompatible_same (h : d.incompatible revision baseline = false) :
    baseline.size = d.size ∧ baseline.activeScreen = d.activeScreen := by
  simp only [incompatible, ne_eq, Bool.or_eq_false_iff, decide_eq_false_iff_not, not_not] at h
  exact ⟨h.1.1.1.2, h.2⟩

/-- No patch of a delta that fits a valid baseline writes outside its rows. -/
theorem patches_in_bounds (hd : d.validate = .ok ())
    (hfits : d.incompatible revision baseline = false) (hb : baseline.validate revision = .ok ()) :
    ∀ p ∈ d.rowPatches, p.row < baseline.rows.length := by
  unfold TerminalSurfaceDelta.validate at hd
  dsimp only at hd
  simp only [throwing_ok, bind_ok] at hd
  obtain ⟨-, -, -, _, -, -, _, -, hpatches⟩ := hd
  intro p hp
  rw [(TerminalSurface.validate_ok_iff.mp hb).rowCount, (incompatible_same hfits).1]
  exact (validateRowPatches_rows hpatches p hp).1

/-- The last check of `candidate` is passed by whatever passed the earlier ones. -/
theorem patched_valid (hd : d.validate = .ok ())
    (hfits : d.incompatible revision baseline = false) (hb : baseline.validate revision = .ok ()) :
    (d.patched baseline).Valid d.toRevision := by
  obtain ⟨hsize, hscreen⟩ := incompatible_same hfits
  have hbase := TerminalSurface.validate_ok_iff.mp hb
  unfold TerminalSurfaceDelta.validate at hd
  dsimp only at hd
  simp only [throwing_ok, bind_ok] at hd
  obtain ⟨-, hcolors, htitle, _, -, hcursor, _, hmetrics, hpatches⟩ := hd
  rw [Bool.not_eq_true', Bool.not_eq_false] at hcolors htitle
  have hrows : ∀ row ∈ d.patchRows baseline.rows,
      validateSurfaceRow row baseline.size.columns = .ok () := by
    intro row hrow
    rcases mem_patch hrow with hold | ⟨_, hwritten, rfl⟩
    · exact hbase.rows row hold
    · obtain ⟨p, hp, rfl⟩ := List.mem_map.mp hwritten
      rw [hsize]
      exact (validateRowPatches_rows hpatches p hp).2
  have hcursor' : d.cursor.row < baseline.size.rows ∧ d.cursor.column < baseline.size.columns := by
    rw [hsize]
    omega
  exact {
    colors := hcolors
    title := htitle
    size := hbase.size
    rowCount := (length_patch _ _).trans hbase.rowCount
    rows := hrows
    cursorRow := hcursor'.1
    cursorColumn := hcursor'.2
    metrics := by
      rw [patched, hsize, hscreen]
      exact hmetrics }

/-- A candidate is made exactly of a valid delta that fits a valid baseline. -/
theorem candidate_ok_iff : d.candidate revision baseline = .ok surface ↔
    d.validate = .ok () ∧ d.incompatible revision baseline = false ∧
      baseline.validate revision = .ok () ∧ surface = d.patched baseline := by
  unfold candidate
  dsimp only
  simp only [throwing_ok, bind_ok, Bool.not_eq_true]
  constructor
  · rintro ⟨_, hd, hfits, _, hb, _, -, hs⟩
    exact ⟨hd, hfits, hb, (Except.ok.inj hs).symm⟩
  · rintro ⟨hd, hfits, hb, rfl⟩
    exact ⟨(), hd, hfits, (), hb, (), (patched_valid hd hfits hb).validate, rfl⟩

/-- A delta is applied whole or not at all, and a surface stays valid. -/
theorem applyTo_cases (d : TerminalSurfaceDelta) (revision : Nat) (baseline : TerminalSurface) :
    (∃ e, d.applyTo revision baseline = (.error e, baseline)) ∨
      d.applyTo revision baseline = (.ok (), d.patched baseline) ∧
        (d.patched baseline).validate d.toRevision = .ok () ∧
        ∀ p ∈ d.rowPatches, p.row < baseline.rows.length := by
  cases h : d.candidate revision baseline with
  | error e =>
    left
    exact ⟨e, by simp [applyTo, h]⟩
  | ok surface =>
    right
    obtain ⟨hd, hfits, hb, rfl⟩ := candidate_ok_iff.mp h
    exact ⟨by simp [applyTo, h], (patched_valid hd hfits hb).validate,
      patches_in_bounds hd hfits hb⟩

end TerminalSurfaceDelta

/-- Deltas and rows: what is applied is valid, what is not leaves the surface as it was, and
the rows accepted are those of complete wide pairs. -/
theorem delta_application_atomic :
    (∀ (baseline : TerminalSurface) (revision : Nat) (d : TerminalSurfaceDelta),
      (∃ e, d.applyTo revision baseline = (.error e, baseline)) ∨
        ∃ surface, d.applyTo revision baseline = (.ok (), surface) ∧
          surface.validate d.toRevision = .ok () ∧
          ∀ p ∈ d.rowPatches, p.row < baseline.rows.length) ∧
    ∀ (row : TerminalSurfaceRow) (columns : Nat), validateSurfaceRow row columns = .ok () ↔
      row.cells.length = columns ∧ WidePairs row.cells ∧
        ∀ cell ∈ row.cells, cell.TextValid := by
  refine ⟨fun baseline revision d => ?_, fun row columns => validateSurfaceRow_ok_iff⟩
  rcases d.applyTo_cases revision baseline with herror | ⟨hok, hvalid, hbounds⟩
  · exact .inl herror
  · exact .inr ⟨_, hok, hvalid, hbounds⟩

end Voytty.Terminal
