import Voytty.Core.ViewportCacheRows
import Voytty.Terminal.HistoryShapes

/-!
# The queries a cache emits

Every query of a cache comes from `make_query` at the latest anchor. `QueryFor` says what
such a query should be: valid for that anchor, at most 240 rows, and with margins that are
the exact results of the subtractions the code makes. It is that wherever the target lies
within the history; all paths clamp their target to it except a prefetch toward newer rows,
which only subtracts from the offset it is given.
-/

namespace Voytty.Core

open Voytty.Terminal Voytty.Lib

variable {Row : Type} {layout : Layout} {c c' : ViewportCache Row}

/-- The margins of a query, computed without wrapping. -/
def exactMargins (paged : Bool) (anchor : TerminalHistoryWindowAnchor) (target : Nat) : Int × Int :=
  let rows : Int := anchor.viewport.rows
  let above : Int := (anchor.maxOffsetFromBottom : Int) - target
  if (target : Int) ≤ rows then if paged then (rows * 2 - target, target) else (rows * 2, 0)
  else if above ≤ rows then if paged then (above, rows * 2 - above) else (0, rows * 2)
  else (rows, rows)

/-- What a query at the latest anchor should be. -/
structure QueryFor (paged : Bool) (latest : TerminalHistoryWindowAnchor)
    (q : TerminalHistoryWindowQuery) : Prop where
  anchor : q.anchor = latest
  valid : q.isValid = true
  few : latest.viewport.rows + q.olderMarginRows + q.newerMarginRows ≤ maxHistoryWindowRows
  exact : ((q.olderMarginRows : Int), (q.newerMarginRows : Int)) =
    exactMargins paged latest q.targetOffsetFromBottom

/-- A usable anchor of at most the largest viewport. -/
structure AnchorWithin (a : TerminalHistoryWindowAnchor) : Prop where
  valid : a.isValid = true
  rows : a.viewport.rows ≤ ({} : ResourceLimits).maxViewportRows
  history : a.maxOffsetFromBottom < 2 ^ 64

theorem makeQuery_target (c : ViewportCache Row) (a : TerminalHistoryWindowAnchor) (target : Nat) :
    (c.makeQuery a target).anchor = a ∧ (c.makeQuery a target).targetOffsetFromBottom = target := by
  unfold ViewportCache.makeQuery
  dsimp only
  split
  · exact ⟨rfl, rfl⟩
  split
  · exact ⟨rfl, rfl⟩
  split
  · exact ⟨rfl, rfl⟩
  · exact ⟨rfl, rfl⟩

variable {target : Nat} {q : TerminalHistoryWindowQuery} {latest : TerminalHistoryWindowAnchor}
  {window : CachedViewportWindow Row}

/-- The code's margins are the exact ones, and fill two viewports. -/
theorem makeQuery_margins (c : ViewportCache Row) {a : TerminalHistoryWindowAnchor}
    (ha : AnchorWithin a) (ht : target ≤ a.maxOffsetFromBottom) :
    (((c.makeQuery a target).olderMarginRows : Int),
        ((c.makeQuery a target).newerMarginRows : Int)) =
      exactMargins c.pages.isSome a target ∧
    (c.makeQuery a target).olderMarginRows + (c.makeQuery a target).newerMarginRows =
      a.viewport.rows * 2 := by
  have hrows : a.viewport.rows ≤ 80 := ha.rows
  have hhistory := ha.history
  have hwrap : ViewportCache.wrappingSub a.maxOffsetFromBottom target =
      a.maxOffsetFromBottom - target := by
    unfold ViewportCache.wrappingSub
    omega
  have htwo : saturateU16 (a.viewport.rows * 2) = a.viewport.rows * 2 := by
    unfold saturateU16
    omega
  unfold ViewportCache.makeQuery Core.makeQuery exactMargins
  dsimp only
  rw [hwrap, htwo]
  by_cases hbottom : target ≤ a.viewport.rows
  · have hbottom' : (target : Int) ≤ a.viewport.rows := by omega
    cases c.pages with
    | none =>
      simp only [Option.isNone_none, Option.isSome_none, Bool.false_eq_true, ↓reduceIte, hbottom,
        hbottom']
      exact ⟨Prod.ext (by simp) rfl, rfl⟩
    | some pages =>
      simp only [Option.isNone_some, Option.isSome_some, Bool.false_eq_true, ↓reduceIte, hbottom,
        hbottom']
      exact ⟨Prod.ext (by dsimp only; omega) rfl, by omega⟩
  · have hbottom' : ¬(target : Int) ≤ a.viewport.rows := by omega
    by_cases htop : a.maxOffsetFromBottom - target ≤ a.viewport.rows
    · have htop' : (a.maxOffsetFromBottom : Int) - target ≤ a.viewport.rows := by omega
      cases c.pages with
      | none =>
        simp only [Option.isNone_none, Option.isSome_none, Bool.false_eq_true, ↓reduceIte, hbottom,
          hbottom', htop, htop']
        exact ⟨Prod.ext rfl (by simp), Nat.zero_add _⟩
      | some pages =>
        simp only [Option.isNone_some, Option.isSome_some, Bool.false_eq_true, ↓reduceIte, hbottom,
          hbottom', htop, htop']
        exact ⟨Prod.ext (by dsimp only; omega) (by dsimp only; omega), by omega⟩
    · have htop' : ¬(a.maxOffsetFromBottom : Int) - target ≤ a.viewport.rows := by omega
      cases c.pages with
      | none =>
        simp only [Option.isNone_none, ↓reduceIte, hbottom, hbottom', htop, htop']
        exact ⟨trivial, by omega⟩
      | some pages =>
        simp only [Option.isNone_some, Bool.false_eq_true, ↓reduceIte, hbottom, hbottom', htop,
          htop']
        exact ⟨trivial, by omega⟩

theorem makeQuery_queryFor (c : ViewportCache Row) {a : TerminalHistoryWindowAnchor}
    (ha : AnchorWithin a) (ht : target ≤ a.maxOffsetFromBottom) :
    QueryFor c.pages.isSome a (c.makeQuery a target) := by
  obtain ⟨hanchor, htarget⟩ := makeQuery_target c a target
  obtain ⟨hexact, hsum⟩ := makeQuery_margins c ha ht
  have hrows : a.viewport.rows ≤ 80 := ha.rows
  refine ⟨hanchor, ?_, ?_, ?_⟩
  · rw [TerminalHistoryWindowQuery.isValid_iff, hanchor, htarget]
    exact ⟨ha.valid, ht, hsum.le⟩
  · unfold maxHistoryWindowRows
    omega
  · rw [hexact, htarget]

/-! ## Where queries come from -/

/-- `q` is made for `target` at the anchor known after an operation on `c`. -/
def Emits (c c' : ViewportCache Row) (latest : TerminalHistoryWindowAnchor) (target : Nat)
    (q : TerminalHistoryWindowQuery) : Prop :=
  c'.latestAnchor = some latest ∧
    ∃ d : ViewportCache Row, d.pages.isSome = c.pages.isSome ∧ q = d.makeQuery latest target

theorem setTarget_emits (h : (c.setTarget target).1.request = some q) :
    ∃ latest, Emits c (c.setTarget target).2 latest (min target latest.maxOffsetFromBottom) q := by
  unfold ViewportCache.setTarget at h ⊢
  split at h
  · cases h
  rename_i latest hl
  dsimp only at h ⊢
  split at h
  · rename_i hask
    rw [if_pos hask]
    refine ⟨latest, hl, _, Option.isSome_map, (Option.some.inj h).symm⟩
  · cases h

theorem prefetchScreens_emits {offset : Nat} {older : Bool} {screens : List Nat}
    (hl : c.latestAnchor = some latest)
    (h : (c.prefetchScreens latest offset older screens).1 = some q) :
    ∃ screen, Emits c (c.prefetchScreens latest offset older screens).2 latest
      (ViewportCache.prefetchTarget latest offset older screen) q := by
  induction screens with
  | nil => cases h
  | cons screen screens ih =>
    unfold ViewportCache.prefetchScreens at h ⊢
    dsimp only at h ⊢
    split at h
    · cases h
    rename_i hmoved
    rw [if_neg hmoved]
    split at h
    · rename_i hmissing
      rw [if_pos hmissing]
      exact ⟨screen, hl, c, rfl, (Option.some.inj h).symm⟩
    · rename_i hmissing
      rw [if_neg hmissing]
      exact ih h

theorem prefetchToward_emits {offset screens : Nat} {older : Bool}
    (h : (c.prefetchToward offset older screens).1 = some q) :
    ∃ latest screen, c.latestAnchor = some latest ∧
      Emits c (c.prefetchToward offset older screens).2 latest
        (ViewportCache.prefetchTarget latest offset older screen) q := by
  unfold ViewportCache.prefetchToward at h ⊢
  split at h
  · rename_i latest _ _ hl
    obtain ⟨screen, hemits⟩ := prefetchScreens_emits hl h
    exact ⟨latest, screen, hl, hemits⟩
  · cases h

theorem followLatest_emits (h : (c.followLatestAfterStaleResponse latest).1.request = some q) :
    Emits c (c.followLatestAfterStaleResponse latest).2 latest
      (min c.desiredOffsetFromBottom latest.maxOffsetFromBottom) q := by
  unfold ViewportCache.followLatestAfterStaleResponse at h ⊢
  dsimp only at h ⊢
  split at h
  · rename_i hup
    rw [if_pos hup]
    exact ⟨rfl, _, rfl, (Option.some.inj h).symm⟩
  · cases h

theorem Kept.latestAnchor (h : Kept layout c latest window c') :
    c'.latestAnchor = c.latestAnchor := by
  cases h <;> rfl

theorem place_emits {desired : Nat} {same : Bool} {reserved nestedBytes : Nat}
    (h : (c.place layout latest desired same window reserved nestedBytes).1.request = some q) :
    Emits c (c.place layout latest desired same window reserved nestedBytes).2 latest
      (min desired latest.maxOffsetFromBottom) q := by
  unfold ViewportCache.place at h ⊢
  dsimp only at h ⊢
  have hk := keepWindow_cases layout { c with
      latestAnchor := some latest
      desiredOffsetFromBottom := min desired latest.maxOffsetFromBottom } latest same window
    reserved nestedBytes
  split at h
  · rename_i hask
    rw [if_pos hask]
    have hlatest := hk.latestAnchor
    exact ⟨hlatest, _, hk.pages_isSome, (Option.some.inj h).symm⟩
  · cases h

theorem installAccountedWindow_emits {reserved nestedBytes : Nat}
    (h : (c.installAccountedWindow layout window reserved nestedBytes).1.toOption.bind (·.request) = some q) :
    ∃ latest target, target ≤ latest.maxOffsetFromBottom ∧
      Emits c (c.installAccountedWindow layout window reserved nestedBytes).2 latest target q := by
  unfold ViewportCache.installAccountedWindow at h ⊢
  split at h
  · cases h
  rename_i pending hp
  split at h
  · cases h
  rename_i hv
  rw [if_neg hv]
  dsimp only at h ⊢
  split at h
  · exact ⟨_, _, min_le_right _ _, followLatest_emits h⟩
  rename_i latest desired hr
  split at h
  · cases h
  rename_i hdirty
  rw [if_neg hdirty]
  exact ⟨latest, _, min_le_right _ _, place_emits h⟩

/-- A prefetch toward newer rows starts within the history. -/
def CacheOp.StartsWithin (c : ViewportCache Row) : CacheOp Row → Prop
  | .prefetch offset false _ =>
    ∀ latest, c.latestAnchor = some latest → offset ≤ latest.maxOffsetFromBottom
  | _ => True

/-- Every path but a prefetch clamps its target; that one only moves it down. -/
theorem issued_emits {op : CacheOp Row} (hop : op.StartsWithin c) (h : c.issued layout op = some q) :
    ∃ latest target, target ≤ latest.maxOffsetFromBottom ∧
      Emits c (c.apply layout op) latest target q := by
  cases op with
  | setTarget target =>
    obtain ⟨latest, hemits⟩ := setTarget_emits h
    exact ⟨latest, _, min_le_right _ _, hemits⟩
  | prefetch offset older screens =>
    obtain ⟨latest, screen, hl, hemits⟩ := prefetchToward_emits h
    refine ⟨latest, _, ?_, hemits⟩
    unfold ViewportCache.prefetchTarget
    cases older with
    | true => exact min_le_right _ _
    | false => exact (Nat.sub_le _ _).trans (hop latest hl)
  | install window reserved =>
    dsimp only [ViewportCache.issued, ViewportCache.apply, ViewportCache.installWindow] at h ⊢
    split at h
    · cases h
    · rename_i hpages
      rw [if_neg hpages]
      exact installAccountedWindow_emits h
  | installAccounted window reserved nestedBytes => exact installAccountedWindow_emits h
  | _ => cases h

/-! ## The latest anchor -/

/-- The anchors an operation brings are of at most the largest viewport. -/
def CacheOp.AnchorsWithin : CacheOp Row → Prop
  | .observe a => a.viewport.rows ≤ ({} : ResourceLimits).maxViewportRows ∧
      a.maxOffsetFromBottom < 2 ^ 64
  | .install w _ | .installAccounted w _ _ =>
    w.anchor.viewport.rows ≤ ({} : ResourceLimits).maxViewportRows ∧
      w.anchor.maxOffsetFromBottom < 2 ^ 64
  | _ => True

def Anchored (c : ViewportCache Row) : Prop :=
  ∀ latest, c.latestAnchor = some latest → AnchorWithin latest

theorem anchor_of_isValidFor {query : TerminalHistoryWindowQuery}
    (h : window.isValidFor query = true) :
    window.anchor.isValid = true := by
  have hvalid := (Bool.and_eq_true_iff.mp h).1
  unfold CachedViewportWindow.isValid at hvalid
  split at hvalid
  · cases hvalid
  · rename_i hshape
    simp only [Bool.or_eq_true, not_or] at hshape
    simpa using hshape.1.1.1

theorem Anchored.step {op : CacheOp Row} (h : Anchored c) (hop : op.AnchorsWithin) :
    Anchored (c.apply layout op) := by
  intro latest hl
  rcases (apply_step layout c op).latest hl with hknown | ⟨rfl, hvalid⟩ | ⟨w, _, _, hr, rfl⟩
  · exact h latest hknown
  · exact ⟨hvalid, hop.1, hop.2⟩
  · obtain ⟨query, -, hv⟩ := (response_installed hr).shape rfl
    have hwithin : w.anchor.viewport.rows ≤ ({} : ResourceLimits).maxViewportRows ∧
        w.anchor.maxOffsetFromBottom < 2 ^ 64 := by
      cases op with
      | install | installAccounted =>
        obtain ⟨rfl, -⟩ := Prod.mk.inj (Option.some.inj hr)
        exact hop
      | _ => cases hr
    exact ⟨anchor_of_isValidFor hv, hwithin.1, hwithin.2⟩

theorem run_anchored {budget : Option ViewportCacheBudget}
    (h : CacheRun layout (fun _ op => op.AnchorsWithin) (.start budget) c) : Anchored c := by
  refine Preserved.run ?_ h (by cases budget <;> rintro _ ⟨⟩)
  rintro c _ ⟨op, hop, rfl⟩ hc
  exact hc.step hop

def eightAbove : ViewportCache Nat :=
  (ViewportCache.start (some ⟨64, 10000⟩)).apply wordLayout (.observe (fourRows 1 8))

theorem eightAbove_run :
    CacheRun wordLayout (fun _ op => op.AnchorsWithin) (.start (some ⟨64, 10000⟩)) eightAbove :=
  .single ⟨.observe (fourRows 1 8), ⟨by decide, by decide⟩, rfl⟩

end Voytty.Core
