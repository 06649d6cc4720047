import Voytty.Terminal.Surface

/-!
# The scrollbar

A thumb in a track of rows (`cli/src/terminal_ui/composition.rs`). Its place is
rounded from the history offset, and a pointer that drags it is rounded back to
an offset. The track has at most as much travel as there is history
(`travel_le_maximum`), so the second rounding undoes the first.
-/

namespace Voytty.Cli

open Voytty.Terminal

/-- The result of a `checked` operation on `bits` bits. -/
def checkedBits (bits n : Nat) : Option Nat := if n < 2 ^ bits then some n else none

/-- The result of a `saturating` operation on `bits` bits. -/
def saturateBits (bits n : Nat) : Nat := min n (2 ^ bits - 1)

theorem checkedBits_eq {bits n : Nat} (h : n < 2 ^ bits) : checkedBits bits n = some n := if_pos h

theorem saturateBits_eq {bits n : Nat} (h : n < 2 ^ bits) : saturateBits bits n = n :=
  min_eq_left (Nat.le_sub_one_of_lt h)

structure ScrollbarGeometry where
  trackRows : Nat
  thumbTop : Nat
  thumbLen : Nat
  deriving DecidableEq, Repr

namespace ScrollbarGeometry

def roundedTop (newerDistance travel maximum : Nat) : Option Nat := do
  if travel = 0 then return 0
  let moved ← checkedBits 128 (newerDistance * travel)
  let rounded ← checkedBits 128 (moved + maximum / 2)
  return rounded / maximum

def new (trackRows : Nat) (metrics : TerminalScrollMetrics) : Option ScrollbarGeometry :=
  if trackRows = 0 ∨ !metrics.isValid ∨ metrics.maxOffsetFromBottom = 0 then none
  else do
    let visible := metrics.viewportRows
    let maximum := metrics.maxOffsetFromBottom
    let product ← checkedBits 128 (trackRows * visible)
    let rows ← checkedBits 128 (visible + maximum)
    let thumbLen := min (max (product / rows) 1) trackRows
    let travel := trackRows - thumbLen
    let newerDistance := maximum - min metrics.offsetFromBottom maximum
    let thumbTop ← roundedTop newerDistance travel maximum
    return ⟨trackRows, ← checkedBits 16 (min thumbTop trackRows), ← checkedBits 16 thumbLen⟩

def travel (g : ScrollbarGeometry) : Nat := g.trackRows - g.thumbLen

/-- The row of the thumb's top that a pointer asks for; rows of the terminal count from 1. -/
def pointerTop (g : ScrollbarGeometry) (row grabRow : Nat) : Nat :=
  let pointer := min (row - 1) (g.trackRows - 1)
  min (pointer - min grabRow (g.thumbLen - 1)) g.travel

def offsetForPointer (g : ScrollbarGeometry) (row grabRow maximumOffset : Nat) : Nat :=
  if maximumOffset = 0 then 0
  else if g.travel = 0 then maximumOffset
  else
    let product := saturateBits 128 (g.pointerTop row grabRow * maximumOffset)
    let newerDistance := saturateBits 128 (product + g.travel / 2) / g.travel
    maximumOffset - (checkedBits 64 (min newerDistance maximumOffset)).getD maximumOffset

end ScrollbarGeometry

/-! ## Rounding -/

/-- A whole number of rows survives the way to offsets and back when there are at
least as many offsets as rows. -/
theorem round_round {t r m : Nat} (hpos : 0 < r) (hle : r ≤ m) :
    ((t * m + r / 2) / r * r + m / 2) / m = t := by
  generalize hn : (t * m + r / 2) / r = n
  obtain rfl | hlt := hle.eq_or_lt
  · have htop : n = t := by
      rw [← hn]
      exact Nat.div_eq_of_lt_le (by omega) (by rw [Nat.succ_mul]; omega)
    rw [htop]
    exact Nat.div_eq_of_lt_le (by omega) (by rw [Nat.succ_mul]; omega)
  · have hbelow : n * r ≤ t * m + r / 2 := hn ▸ Nat.div_mul_le_self _ _
    have habove : t * m + r / 2 < n * r + r := hn ▸ Nat.lt_div_mul_add hpos
    exact Nat.div_eq_of_lt_le (by omega) (by rw [Nat.succ_mul]; omega)

theorem round_le {t r m : Nat} (hpos : 0 < r) (ht : t ≤ r) : (t * m + r / 2) / r ≤ m := by
  have hmul : t * m ≤ m * r := Nat.mul_comm r m ▸ Nat.mul_le_mul_right m ht
  apply Nat.le_of_lt_succ
  rw [Nat.div_lt_iff_lt_mul hpos, Nat.succ_mul]
  omega

def thumb (rows maximum : Nat) : Nat := min (max (rows * rows / (rows + maximum)) 1) rows

theorem thumb_pos {rows maximum : Nat} (h : 0 < rows) : 0 < thumb rows maximum := by
  unfold thumb
  omega

theorem travel_le_maximum (rows maximum : Nat) : rows - thumb rows maximum ≤ maximum := by
  unfold thumb
  generalize hq : rows * rows / (rows + maximum) = q
  by_contra hcon
  have hbig : maximum + (q + 1) ≤ rows := by omega
  have hlt : rows * rows < (q + 1) * (rows + maximum) := by
    rw [← Nat.div_lt_iff_lt_mul (by omega), hq]
    exact Nat.lt_succ_self q
  nlinarith

/-! ## The thumb -/

/-- Metrics within the source's field types and `is_valid`, with some history. -/
structure Scrollable (metrics : TerminalScrollMetrics) : Prop where
  valid : metrics.isValid
  history : 0 < metrics.maxOffsetFromBottom
  rows : metrics.viewportRows < 2 ^ 16
  maximum : metrics.maxOffsetFromBottom < 2 ^ 64

namespace Scrollable

variable {metrics : TerminalScrollMetrics} (h : Scrollable metrics)
include h

theorem bounds : 0 < metrics.viewportRows ∧ metrics.epoch ≤ metrics.revision ∧
    metrics.offsetFromBottom ≤ metrics.maxOffsetFromBottom := by
  simpa [TerminalScrollMetrics.isValid, and_assoc] using h.valid

theorem at_offset {offset : Nat} (hle : offset ≤ metrics.maxOffsetFromBottom) :
    Scrollable { metrics with offsetFromBottom := offset } := by
  refine ⟨?_, h.history, h.rows, h.maximum⟩
  simpa [TerminalScrollMetrics.isValid, and_assoc] using ⟨h.bounds.1, h.bounds.2.1, hle⟩

end Scrollable

namespace ScrollbarGeometry

variable {g : ScrollbarGeometry} {maximum : Nat}

theorem roundedTop_eq {n travel : Nat} (hn : n ≤ maximum) (hpos : 0 < maximum)
    (htravel : travel < 2 ^ 16) (hmax : maximum < 2 ^ 64) :
    roundedTop n travel maximum = some ((n * travel + maximum / 2) / maximum) := by
  have hmoved : n * travel < 2 ^ 64 * 2 ^ 16 := Nat.mul_lt_mul'' (hn.trans_lt hmax) htravel
  unfold roundedTop
  split
  · rename_i hzero
    have hhalf : (n * travel + maximum / 2) / maximum = 0 := by
      rw [hzero]
      exact Nat.div_eq_of_lt (by omega)
    simp [hhalf]
  · rw [checkedBits_eq (by omega), Option.bind_eq_bind, Option.bind_some,
      checkedBits_eq (by omega)]
    rfl

/-- The geometry of scrollable metrics: no checked operation of `new` fails. -/
theorem new_eq {metrics : TerminalScrollMetrics} {rows : Nat} (h : Scrollable metrics)
    (hr : metrics.viewportRows = rows) (hm : metrics.maxOffsetFromBottom = maximum) :
    new rows metrics = some
      ⟨rows, ((maximum - metrics.offsetFromBottom) * (rows - thumb rows maximum) + maximum / 2) /
        maximum, thumb rows maximum⟩ := by
  have hrows := hr ▸ h.rows
  have hmax := hm ▸ h.maximum
  have hpos := hm ▸ h.history
  obtain ⟨hrow, -, hoffset⟩ := h.bounds
  have hnone : ¬(rows = 0 ∨ !metrics.isValid ∨ maximum = 0) := by
    rw [h.valid]
    simp
    omega
  have hproduct : rows * rows < 2 ^ 16 * 2 ^ 16 := Nat.mul_lt_mul'' hrows hrows
  have hlen : thumb rows maximum ≤ rows := min_le_right _ _
  have htop := @round_le _ _ (rows - thumb rows maximum) hpos
    (Nat.sub_le maximum metrics.offsetFromBottom)
  rw [hm] at hoffset
  unfold new
  rw [hm, if_neg hnone]
  simp only [hr]
  rw [checkedBits_eq (by omega), checkedBits_eq (by omega)]
  simp only [Option.bind_eq_bind, Option.bind_some, min_eq_left hoffset]
  rw [← thumb, roundedTop_eq (Nat.sub_le _ _) hpos (by omega) hmax, Option.bind_some,
    min_eq_left (by omega), checkedBits_eq (by omega), Option.bind_some, checkedBits_eq (by omega)]
  rfl

/-- Where a pointer puts the thumb: the clamp to the track changes nothing, since the
grab is limited to the thumb. -/
theorem pointerTop_eq (hlen : 0 < g.thumbLen) (row grab : Nat) :
    g.pointerTop row grab = min (row - 1 - min grab (g.thumbLen - 1)) g.travel := by
  simp only [pointerTop, travel]
  omega

theorem pointer_bits (htrack : g.trackRows < 2 ^ 16) (hmax : maximum < 2 ^ 64) (row grab : Nat) :
    g.pointerTop row grab * maximum + g.travel / 2 < 2 ^ 128 := by
  have htravel : g.travel < 2 ^ 16 := (Nat.sub_le _ _).trans_lt htrack
  have htop : g.pointerTop row grab < 2 ^ 16 := (min_le_right _ _).trans_lt htravel
  have hproduct : g.pointerTop row grab * maximum < 2 ^ 16 * 2 ^ 64 := Nat.mul_lt_mul'' htop hmax
  omega

theorem offsetForPointer_eq (htrack : g.trackRows < 2 ^ 16) (hmax : maximum < 2 ^ 64)
    (row grab : Nat) :
    g.offsetForPointer row grab maximum =
      maximum - (g.pointerTop row grab * maximum + g.travel / 2) / g.travel := by
  have hbits := pointer_bits htrack hmax row grab
  unfold offsetForPointer
  split
  · rename_i hzero
    simp [hzero]
  split
  · rename_i hzero
    simp [hzero]
  · have htop : g.pointerTop row grab ≤ g.travel := min_le_right _ _
    have hle := @round_le _ _ maximum (by omega) htop
    simp only [saturateBits_eq (Nat.lt_of_le_of_lt (Nat.le_add_right _ _) hbits),
      saturateBits_eq hbits, min_eq_left hle]
    rw [checkedBits_eq (hle.trans_lt hmax), Option.getD_some]

theorem round_trip {t r m : Nat} (ht : t ≤ r) (hr : r ≤ m) (hm : 0 < m) :
    ((m - (m - (t * m + r / 2) / r)) * r + m / 2) / m = t := by
  obtain rfl | hpos := r.eq_zero_or_pos
  · rw [Nat.le_zero.mp ht]
    simp only [Nat.mul_zero, Nat.zero_add]
    exact Nat.div_eq_of_lt (by omega)
  · rw [Nat.sub_sub_self (round_le hpos ht)]
    exact round_round hpos hr

theorem offsetForPointer_antitone (htrack : g.trackRows < 2 ^ 16) (hmax : maximum < 2 ^ 64)
    (grab : Nat) :
    Antitone fun row => g.offsetForPointer row grab maximum := by
  intro row row' hle
  have htop : g.pointerTop row grab ≤ g.pointerTop row' grab := by
    simp only [pointerTop]
    omega
  simp only [offsetForPointer_eq htrack hmax]
  gcongr

end ScrollbarGeometry

open ScrollbarGeometry

/-- Dragging the thumb: the offset a pointer stands for puts the thumb's top where the
pointer asked for it, a grab beyond the thumb counting as its last row. -/
theorem scrollbar_round_trip {metrics : TerminalScrollMetrics} {rows maximum : Nat}
    (h : Scrollable metrics) (hr : metrics.viewportRows = rows)
    (hm : metrics.maxOffsetFromBottom = maximum) :
    ∃ g, ScrollbarGeometry.new rows metrics = some g ∧ g.trackRows = rows ∧
      0 < g.thumbLen ∧ g.thumbTop + g.thumbLen ≤ rows ∧
      (∀ row grab, ScrollbarGeometry.new rows
          { metrics with offsetFromBottom := g.offsetForPointer row grab maximum } =
        some { g with thumbTop := min (row - 1 - min grab (g.thumbLen - 1)) g.travel }) ∧
      (∀ grab, Antitone fun row => g.offsetForPointer row grab maximum) ∧
      ∀ row grab, g.pointerTop row grab * maximum + g.travel / 2 < 2 ^ 128 := by
  have hrows := hr ▸ h.rows
  have hmax := hm ▸ h.maximum
  have hpos := hm ▸ h.history
  have hlen : 0 < thumb rows maximum := thumb_pos (hr ▸ h.bounds.1)
  obtain ⟨top, htop, hnew⟩ : ∃ top, top ≤ rows - thumb rows maximum ∧
      ScrollbarGeometry.new rows metrics = some ⟨rows, top, thumb rows maximum⟩ :=
    ⟨_, round_le hpos (Nat.sub_le _ _), new_eq h hr hm⟩
  have hinside : thumb rows maximum ≤ rows := min_le_right _ _
  refine ⟨⟨rows, top, thumb rows maximum⟩, hnew, rfl, hlen, ?_, fun row grab => ?_,
    offsetForPointer_antitone hrows hmax, pointer_bits hrows hmax⟩
  · exact Nat.add_le_of_le_sub hinside htop
  · have hoffset := @offsetForPointer_eq ⟨rows, top, thumb rows maximum⟩ _ hrows hmax row grab
    have hle := hoffset.trans_le ((Nat.sub_le _ _).trans hm.ge)
    rw [new_eq (h.at_offset hle) hr hm, hoffset, ← pointerTop_eq hlen]
    simp only [Option.some.injEq, mk.injEq, true_and, and_true]
    exact round_trip (min_le_right _ _) (travel_le_maximum _ _) hpos

/-- Ten rows over ten rows of history: a pointer on the last row that holds the second of
the thumb's five rows leaves the thumb at the track's end. -/
theorem scrollbar_round_trip_ten :
    ScrollbarGeometry.new 10 ⟨0, 0, 10, 10, 10⟩ = some ⟨10, 0, 5⟩ ∧
      ScrollbarGeometry.new 10 ⟨0, 0, 0, 10, 10⟩ = some ⟨10, 5, 5⟩ := by
  obtain ⟨g, hg, -, -, -, hround, -⟩ := @scrollbar_round_trip ⟨0, 0, 10, 10, 10⟩ 10 10
    ⟨by decide, by decide, by decide, by decide⟩ rfl rfl
  have hgeometry : ScrollbarGeometry.new 10 ⟨0, 0, 10, 10, 10⟩ = some ⟨10, 0, 5⟩ := by
    decide
  obtain rfl : ⟨10, 0, 5⟩ = g := Option.some.inj (hgeometry.symm.trans hg)
  have hoffset : offsetForPointer ⟨10, 0, 5⟩ 10 1 10 = 0 := by decide
  have hback := hround 10 1
  rw [hoffset] at hback
  exact ⟨hgeometry, hback⟩

/-- A grab below the thumb counts as its last row: the difference of the rows is 0, and the
thumb's top is at 5. -/
theorem grab_below_thumb :
    ScrollbarGeometry.new 10 ⟨0, 0, 10, 10, 10⟩ = some ⟨10, 0, 5⟩ ∧
      ScrollbarGeometry.new 10 ⟨0, 0, offsetForPointer ⟨10, 0, 5⟩ 10 9 10, 10, 10⟩ =
        some ⟨10, 5, 5⟩ ∧
      min (10 - 1 - 9) (travel ⟨10, 0, 5⟩) = 0 := by
  decide

end Voytty.Cli
