import Voytty.Core.ViewportCacheSteps

/-!
# Rows shown by the viewport cache

A `Host` is the terminal a cache follows: an anchor at each revision, history
rows that stay as they are for an epoch, viewport and ordinal, and live rows that
belong to one revision. A paged cache fed with truthful windows shows the host's
rows at the latest anchor (`paged_rows_are_host_rows`). The single window is not
checked against the latest revision, and a response does not move the presented
offset; `Calm` and `Steady` name the operations after which neither matters.
-/

namespace Voytty.Core

open Voytty.Terminal Voytty.Lib

variable {Row : Type} {layout : Layout} {c c' : ViewportCache Row}

/-! ## Lookups -/

namespace CachedViewportWindow

variable {w : CachedViewportWindow Row} {target : Nat}

theorem visibleRange_some {start stop : Nat} (h : w.visibleRange target = some (start, stop)) :
    (start : Int) = -target - w.firstRowFromLiveTop ∧ stop = start + w.anchor.viewport.rows ∧
      stop ≤ w.rows.length := by
  unfold visibleRange at h
  split at h
  · cases h
  simp only [bind, Option.bind_eq_some_iff] at h
  obtain ⟨t, ht, first, hfirst, relative, hrelative, h⟩ := h
  obtain ⟨rfl, -⟩ := checkedI64_some ht
  obtain ⟨rfl, -⟩ := checkedI64_some hfirst
  obtain ⟨rfl, -⟩ := checkedI64_some hrelative
  split at h
  · cases h
  split at h
  · obtain ⟨rfl, rfl⟩ := Prod.mk.inj (Option.some.inj h)
    exact ⟨by omega, rfl, ‹_›⟩
  · cases h

theorem visibleRows_some {rows : List Row} (h : w.visibleRows target = some rows) :
    ∃ start : Nat, (start : Int) = -target - w.firstRowFromLiveTop ∧
      start + w.anchor.viewport.rows ≤ w.rows.length ∧
      rows = (w.rows.drop start).take w.anchor.viewport.rows := by
  obtain ⟨⟨start, stop⟩, hr, rfl⟩ := Option.map_eq_some_iff.mp h
  obtain ⟨hs, rfl, hle⟩ := visibleRange_some hr
  exact ⟨start, hs, hle, by simp⟩

end CachedViewportWindow

variable {target offset : Nat} {rows : List Row} {op : CacheOp Row}
  {request : Option TerminalHistoryWindowQuery}

theorem targetInWindowCoordinates_some {latest window : TerminalHistoryWindowAnchor}
    (h : targetInWindowCoordinates latest window target = some offset) :
    latest.epoch = window.epoch ∧ latest.viewport = window.viewport ∧
      window.maxOffsetFromBottom ≤ latest.maxOffsetFromBottom ∧
      (latest.maxOffsetFromBottom : Int) - target = window.maxOffsetFromBottom - offset := by
  unfold targetInWindowCoordinates at h
  split at h
  · cases h
  rename_i hid
  push Not at hid
  dsimp only at h
  split at h
  · obtain rfl := Option.some.inj h
    exact ⟨hid.1, hid.2.1, hid.2.2, by omega⟩
  · cases h

theorem reusableTarget_some {latest : TerminalHistoryWindowAnchor}
    {window : CachedViewportWindow Row} (h : reusableTarget latest window target = some offset) :
    targetInWindowCoordinates latest window.anchor target = some offset ∧
      (latest.revision = window.anchor.revision ∨ window.anchor.viewport.rows ≤ offset) := by
  unfold reusableTarget at h
  split at h
  · cases h
  rename_i found hfound
  split at h
  · cases h
  split at h
  · cases h
  · obtain rfl := Option.some.inj h
    exact ⟨hfound, by omega⟩

/-- The window that answers a target is held, and covers the target in its own coordinates; a
page also has the target above its live rows or the latest revision. -/
theorem windowFor_some {latest : TerminalHistoryWindowAnchor} {w : CachedViewportWindow Row}
    (h : c.windowFor latest target = some (w, offset)) :
    w ∈ c.windows ∧ targetInWindowCoordinates latest w.anchor target = some offset ∧
      (c.pages = none ∨ latest.revision = w.anchor.revision ∨ w.anchor.viewport.rows ≤ offset) := by
  unfold ViewportCache.windowFor at h
  split at h
  · rename_i pages hp
    obtain ⟨page, hpage, hfound⟩ := List.exists_of_findSome?_eq_some h
    obtain ⟨offset, hr, heq⟩ := Option.map_eq_some_iff.mp hfound
    obtain ⟨rfl, rfl⟩ := Prod.mk.inj heq
    obtain ⟨ht, hlive⟩ := reusableTarget_some hr
    refine ⟨?_, ht, .inr hlive⟩
    simp only [ViewportCache.windows, hp, Pages.windows]
    simp only [List.mem_append, Option.toList_some, List.flatMap_singleton, List.mem_map]
    exact .inr ⟨page, List.mem_reverse.mp hpage, rfl⟩
  · rename_i hp
    simp only [bind, Option.bind_eq_some_iff] at h
    obtain ⟨window, hw, found, ht, h⟩ := h
    split at h
    · obtain ⟨rfl, rfl⟩ := Prod.mk.inj (Option.some.inj h)
      exact ⟨by simp [ViewportCache.windows, hw], ht, .inl hp⟩
    · cases h

/-- Rows of a target of the latest anchor: a viewport of a held window at the target's ordinal. -/
structure Shown (c : ViewportCache Row) (latest : TerminalHistoryWindowAnchor) (target : Nat)
    (rows : List Row) (w : CachedViewportWindow Row) (start : Nat) : Prop where
  held : w ∈ c.windows
  epoch : w.anchor.epoch = latest.epoch
  viewport : w.anchor.viewport = latest.viewport
  maximum : w.anchor.maxOffsetFromBottom ≤ latest.maxOffsetFromBottom
  slice : rows = (w.rows.drop start).take latest.viewport.rows
  inside : start + latest.viewport.rows ≤ w.rows.length
  ordinal : (w.anchor.maxOffsetFromBottom : Int) + w.firstRowFromLiveTop + start =
    latest.maxOffsetFromBottom - target
  revision : c.pages = none ∨ latest.revision = w.anchor.revision ∨
    w.firstRowFromLiveTop + start + latest.viewport.rows ≤ 0

theorem shown_of_windowFor {latest : TerminalHistoryWindowAnchor}
    (h : ((c.windowFor latest target).bind fun found => found.1.visibleRows found.2) = some rows) :
    ∃ w start, Shown c latest target rows w start := by
  obtain ⟨⟨w, offset⟩, hw, hrows⟩ := Option.bind_eq_some_iff.mp h
  obtain ⟨hheld, ht, hlive⟩ := windowFor_some hw
  obtain ⟨he, hv, hm, hord⟩ := targetInWindowCoordinates_some ht
  dsimp only at hrows
  obtain ⟨start, hs, hle, hslice⟩ := CachedViewportWindow.visibleRows_some hrows
  exact ⟨w, start, hheld, he.symm, hv.symm, hm, by rw [hv, hslice], by rw [hv]; exact hle,
    by omega, hlive.imp_right fun h => h.imp_right fun h => by rw [hv]; omega⟩

theorem visibleRows_shown (h : c.visibleRows = some rows) :
    ∃ latest, c.latestAnchor = some latest ∧
      ∃ w start, Shown c latest c.desiredOffsetFromBottom rows w start := by
  obtain ⟨latest, hl, h⟩ := Option.bind_eq_some_iff.mp h
  exact ⟨latest, hl, shown_of_windowFor h⟩

theorem presentedRows_shown (h : c.presentedRows = some rows) :
    ∃ latest presented, c.latestAnchor = some latest ∧
      c.presentedOffsetFromBottom = some presented ∧
      ∃ w start, Shown c latest presented rows w start := by
  obtain ⟨latest, hl, h⟩ := Option.bind_eq_some_iff.mp h
  obtain ⟨presented, hp, h⟩ := Option.bind_eq_some_iff.mp h
  exact ⟨latest, presented, hl, hp, shown_of_windowFor h⟩

/-! ## Windows a step leaves -/

theorem Kept.windows {latest : TerminalHistoryWindowAnchor} {window : CachedViewportWindow Row}
    (h : Kept layout c latest window c') : c'.windows ⊆ c.windows ++ [window] := by
  cases h with
  | replaced hp => simp [ViewportCache.windows, hp]
  | missed => exact List.subset_append_left _ _
  | @inserted pages hp pages' hw reserved nestedBytes =>
    have hpages : pages'.windows ⊆ pages.windows := by
      rcases hw with rfl | rfl
      · exact List.Subset.refl _
      · exact pages.discardUnpinned_windows
    have hinsert := pages'.insert_windows layout window reserved nestedBytes
    intro w hw
    simp only [ViewportCache.windows, hp, Option.toList_some, List.flatMap_singleton,
      List.mem_append, List.mem_singleton] at hw ⊢
    rcases hw with hw | hw
    · exact .inl (.inl hw)
    · rcases List.mem_append.mp (hinsert hw) with hw | hw
      · exact .inl (.inr (hpages hw))
      · exact .inr (List.mem_singleton.mp hw)

theorem CacheStep.windows (h : CacheStep layout c op request c') {w : CachedViewportWindow Row}
    (hw : w ∈ c'.windows) :
    w ∈ c.windows ∨ (∃ install after, c.response layout op = some (w, .ok install, after)) ∨
      c.captured op = some w := by
  cases h with
  | observe h => cases h with
    | invalid => exact .inl (c.dropRows_windows hw)
    | reset => exact .inl (c.dropRows_windows hw)
    | live =>
      split at hw
      · exact .inl (c.dropRows_windows hw)
      · exact .inl hw
    | _ => exact .inl hw
  | @aim target latest _ hl h =>
    refine .inl ?_
    have haim : (c.aim latest (min target latest.maxOffsetFromBottom)).windows ⊆ c.windows := by
      unfold ViewportCache.aim ViewportCache.windows
      cases hp : c.pages with
      | none => simp
      | some pages =>
        simpa using List.Subset.trans (pages.touch_windows latest _) (List.subset_append_right _ _)
    cases h <;> exact haim hw
  | prefetch _ h => cases h <;> exact .inl hw
  | respond hop h => cases h with
    | rejected => exact .inl hw
    | stale => exact .inl hw
    | dirty => exact .inl hw
    | placed hp hv hl hr hn hk install =>
      rcases List.mem_append.mp (hk.windows hw) with hw | hw
      · exact .inl hw
      · obtain rfl := List.mem_singleton.mp hw
        exact .inr (.inl ⟨_, _, hop⟩)
  | paged hop pages hs hsub =>
    rcases List.mem_append.mp hw with hw | hw
    · exact .inl (List.mem_append_left _ hw)
    · rcases List.mem_append.mp (hsub hw) with hw | hw
      · exact .inl (List.mem_append_right _ hw)
      · exact .inr (.inr (Option.mem_toList.mp hw))
  | invalidate => exact .inl (c.dropRows_windows hw)
  | invalidateRows => exact .inl (c.dropRows_windows hw)
  | _ => exact .inl hw

theorem CacheStep.latest (h : CacheStep layout c op request c')
    {latest : TerminalHistoryWindowAnchor} (hl : c'.latestAnchor = some latest) :
    c.latestAnchor = some latest ∨ (op = .observe latest ∧ latest.isValid = true) ∨
      ∃ w install after, c.response layout op = some (w, .ok install, after) ∧
        w.anchor = latest := by
  have hgetD : ∀ w install after, c.response layout op = some (w, .ok install, after) →
      latest = c.latestAnchor.getD w.anchor → c.latestAnchor = some latest ∨
        (op = .observe latest ∧ latest.isValid = true) ∨
        ∃ w install after, c.response layout op = some (w, .ok install, after) ∧
          w.anchor = latest := by
    intro w install after hop hprev
    cases hc : c.latestAnchor with
    | some known => exact .inl (by rw [hprev, hc]; rfl)
    | none => exact .inr (.inr ⟨w, install, after, hop, by rw [hprev, hc]; rfl⟩)
  cases h with
  | observe h hv =>
    have hvalid := hv.resolve_right (by rw [hl]; simp)
    cases h with
    | invalid => cases hl
    | older => exact .inl hl
    | _ =>
      obtain rfl := Option.some.inj hl
      exact .inr (.inl ⟨rfl, hvalid⟩)
  | aim _ h => cases h <;> exact .inl hl
  | prefetch _ h => cases h <;> exact .inl hl
  | respond hop h => cases h with
    | rejected => exact .inl hl
    | stale hp hv hprev =>
      obtain rfl := Option.some.inj hl
      exact hgetD _ _ _ hop hprev
    | dirty => exact .inl hl
    | @placed _ previous latest' _ kept hp hv hprev hr hn hk install =>
      have hkept : kept.latestAnchor = some latest' := by cases hk <;> rfl
      obtain rfl := Option.some.inj (hkept.symm.trans hl)
      rcases resolveResponse_cases hr with ⟨rfl, -⟩ | ⟨rfl, -⟩
      · exact hgetD _ _ _ hop hprev
      · exact .inr (.inr ⟨_, _, _, hop, rfl⟩)
  | invalidate => cases hl
  | _ => exact .inl hl

theorem Kept.single {latest : TerminalHistoryWindowAnchor} {window : CachedViewportWindow Row}
    (h : Kept layout c latest window c') (hp : c.pages = none) : c'.pages = none := by
  cases h with
  | inserted hpages => rw [hp] at hpages; cases hpages
  | _ => exact hp

theorem Kept.pages_isSome {latest : TerminalHistoryWindowAnchor}
    {window : CachedViewportWindow Row} (h : Kept layout c latest window c') :
    c'.pages.isSome = c.pages.isSome := by
  cases h with
  | inserted hp => rw [hp]; rfl
  | _ => rfl

theorem CacheStep.pages_isSome (h : CacheStep layout c op request c') :
    c'.pages.isSome = c.pages.isSome := by
  cases h with
  | observe h => cases h with
    | invalid | reset => exact Option.isSome_map
    | live => split <;> first | rfl | exact Option.isSome_map
    | _ => rfl
  | aim _ h => cases h <;> exact Option.isSome_map
  | prefetch _ h => cases h <;> rfl
  | respond _ h => cases h with
    | placed hp hv hl hr hn hk => exact hk.pages_isSome
    | _ => rfl
  | paged _ _ hs => exact hs
  | invalidate | invalidateRows => exact Option.isSome_map
  | _ => rfl

/-! ## Paged caches -/

/-- What a cache follows: the anchor at each revision, history rows by epoch, viewport and
ordinal, live rows by revision and ordinal. -/
structure Host (Row : Type) where
  anchor : Nat → TerminalHistoryWindowAnchor
  history : Nat → TerminalSize → Int → Row
  live : Nat → Int → Row

namespace Host

variable (host : Host Row)

def row (a : TerminalHistoryWindowAnchor) (ordinal : Int) : Row :=
  if ordinal < a.maxOffsetFromBottom then host.history a.epoch a.viewport ordinal
  else host.live a.revision ordinal

/-- The window reports an anchor of the host and the rows there. -/
structure Truthful (w : CachedViewportWindow Row) : Prop where
  anchor : w.anchor = host.anchor w.anchor.revision
  rows : ∀ i (h : i < w.rows.length), w.rows[i] =
    host.row w.anchor (w.anchor.maxOffsetFromBottom + w.firstRowFromLiveTop + i)

/-- Observed anchors, accepted responses and captured screens are the host's. -/
structure Reports (layout : Layout) (c : ViewportCache Row) (op : CacheOp Row) : Prop where
  observed : ∀ a, op = .observe a → a.isValid = true → a = host.anchor a.revision
  accepted : ∀ w install after, c.response layout op = some (w, .ok install, after) →
    host.Truthful w
  captured : ∀ w, c.captured op = some w → host.Truthful w

/-- A cache that knows an anchor of the host and truthful windows. -/
structure Follows (c : ViewportCache Row) : Prop where
  latest : ∀ latest, c.latestAnchor = some latest → latest = host.anchor latest.revision
  windows : ∀ w ∈ c.windows, host.Truthful w

variable {host}

theorem Follows.step {op : CacheOp Row} (h : host.Follows c) (hop : host.Reports layout c op) :
    host.Follows (c.apply layout op) := by
  obtain ⟨hobserve, hresponse, hcapture⟩ := hop
  have hstep := apply_step layout c op
  refine ⟨fun latest hl => ?_, fun w hw => ?_⟩
  · rcases hstep.latest hl with hl | ⟨rfl, hv⟩ | ⟨w, install, after, hr, rfl⟩
    · exact h.latest latest hl
    · exact hobserve _ rfl hv
    · exact (hresponse w install after hr).anchor
  · rcases hstep.windows hw with hw | ⟨install, after, hr⟩ | hw
    · exact h.windows w hw
    · exact hresponse w install after hr
    · exact hcapture w hw

theorem Follows.row_eq {w : CachedViewportWindow Row} {latest : TerminalHistoryWindowAnchor}
    (hw : host.Truthful w) (hl : latest = host.anchor latest.revision)
    (he : w.anchor.epoch = latest.epoch) (hv : w.anchor.viewport = latest.viewport)
    (hm : w.anchor.maxOffsetFromBottom ≤ latest.maxOffsetFromBottom) {ordinal : Int}
    (hr : latest.revision = w.anchor.revision ∨ ordinal < w.anchor.maxOffsetFromBottom) :
    host.row w.anchor ordinal = host.row latest ordinal := by
  rcases hr with hr | hr
  · rw [hl, hw.anchor, hr]
  · rw [row, row, if_pos hr, if_pos (by omega), he, hv]

theorem Reports.install {w : CachedViewportWindow Row} (hw : host.Truthful w) (reserved : Nat) :
    host.Reports layout c (.install w reserved) where
  observed a h := by cases h
  accepted w' install after h := (Prod.mk.inj (Option.some.inj h)).1 ▸ hw
  captured w' h := by cases h

theorem Reports.setTarget (target : Nat) : host.Reports layout c (.setTarget target) where
  observed a h := by cases h
  accepted w install after h := by cases h
  captured w h := by cases h

theorem Reports.observe (revision : Nat)
    (h : (host.anchor revision).revision = revision) :
    host.Reports layout c (.observe (host.anchor revision)) where
  observed a ha _ := by cases ha; rw [h]
  accepted w install after h := by cases h
  captured w h := by cases h

/-- Four rows under a history of given lengths; history rows are their ordinals, live rows
carry their revision too. -/
def numbered (history : Nat → Nat) : Host Nat where
  anchor revision := fourRows revision (history revision)
  history _ _ ordinal := ordinal.toNat
  live revision ordinal := 100 * revision + ordinal.toNat

def window (host : Host Row) (revision target : Nat) (first : Int) (count : Nat) :
    CachedViewportWindow Row :=
  ⟨.exact, host.anchor revision, target, first, (List.range count).map fun i =>
    host.row (host.anchor revision)
      ((host.anchor revision).maxOffsetFromBottom + first + (i : Nat))⟩

theorem window_truthful (host : Host Row) (revision target : Nat) (first : Int) (count : Nat)
    (h : (host.anchor revision).revision = revision) :
    host.Truthful (host.window revision target first count) :=
  ⟨by simp [window, h], by simp [window]⟩

end Host

/-- A paged cache shows the host's rows of the latest anchor at the desired offset, and a row of
the live screen only at its own revision. -/
theorem paged_rows_are_host_rows (layout : Layout) (host : Host Row)
    (budget : ViewportCacheBudget) {c : ViewportCache Row}
    (h : CacheRun layout (host.Reports layout) (.withBudget budget) c)
    {latest : TerminalHistoryWindowAnchor} {rows : List Row} (hl : c.latestAnchor = some latest)
    (hrows : c.visibleRows = some rows) :
    rows.length = latest.viewport.rows ∧
      (∀ i (hi : i < rows.length), rows[i] =
        host.row latest (latest.maxOffsetFromBottom - c.desiredOffsetFromBottom + i)) ∧
      ∃ w ∈ c.windows, ∃ start, rows = (w.rows.drop start).take latest.viewport.rows ∧
        ∀ i < rows.length, 0 ≤ w.firstRowFromLiveTop + start + i →
          w.anchor.revision = latest.revision := by
  have hfollows : host.Follows c ∧ c.pages.isSome = true := by
    refine Preserved.run (P := fun c => host.Follows c ∧ c.pages.isSome = true) ?_ h
      ⟨⟨by simp [ViewportCache.withBudget, ViewportCache.new],
        by simp [ViewportCache.windows, ViewportCache.withBudget, ViewportCache.new, Pages.new,
          Pages.windows]⟩, rfl⟩
    rintro c _ ⟨op, hop, rfl⟩ ⟨hc, hp⟩
    exact ⟨hc.step hop, by rw [(apply_step layout c op).pages_isSome]; exact hp⟩
  obtain ⟨latest', hl', w, start, hshown⟩ := visibleRows_shown hrows
  obtain rfl := Option.some.inj (hl'.symm.trans hl)
  have htrue := hfollows.1.windows w hshown.held
  have hlength : rows.length = latest'.viewport.rows := by
    rw [hshown.slice, List.length_take, List.length_drop]
    have := hshown.inside
    omega
  -- a live row of the window at another revision would lie below a page's slice
  have hlive : ∀ i < rows.length, 0 ≤ w.firstRowFromLiveTop + start + i →
      w.anchor.revision = latest'.revision := by
    intro i hi hrow
    rcases hshown.revision with hp | hr | hr
    · rw [hp] at hfollows
      exact absurd hfollows.2 (by simp)
    · exact hr.symm
    · omega
  refine ⟨hlength, fun i hi => ?_, w, hshown.held, start, hshown.slice, hlive⟩
  have hinside := hshown.inside
  have hget : rows[i] = w.rows[start + i] := by
    simp only [hshown.slice, List.getElem_take, List.getElem_drop]
  have hordinal := hshown.ordinal
  rw [hget, htrue.rows, ← Host.Follows.row_eq htrue (hfollows.1.latest _ hl) hshown.epoch
    hshown.viewport hshown.maximum]
  · congr 1
    push_cast
    omega
  · by_cases hrow : 0 ≤ w.firstRowFromLiveTop + start + i
    · exact .inl (hlive i hi hrow).symm
    · exact .inr (by omega)

def capturedScreen : ViewportCache Nat :=
  [.observe (fourRows 1 8), .captureLive [108, 109, 110, 111] 4 0].foldl
    (·.apply wordLayout ·) (.withBudget ⟨100, 10000⟩)

theorem paged_rows_are_host_rows_live :
    capturedScreen.visibleRows = some [108, 109, 110, 111] ∧
      ∀ (i : Nat) (h : i < [108, 109, 110, 111].length), [108, 109, 110, 111][i] =
        (Host.numbered fun _ => 8).row (fourRows 1 8) (8 - 0 + i) := by
  have hrows : capturedScreen.visibleRows = some [108, 109, 110, 111] := by decide +kernel
  have hrun : CacheRun wordLayout ((Host.numbered fun _ => 8).Reports wordLayout)
      (.withBudget ⟨100, 10000⟩) capturedScreen := by
    refine Permitted.run _ ⟨.observe 1 rfl, ⟨?_, ?_, ?_⟩, trivial⟩
    · intro a h
      cases h
    · intro w install after h
      cases h
    · intro w h
      obtain rfl := Option.some.inj h
      exact (Host.numbered fun _ => 8).window_truthful 1 0 0 4 rfl
  exact ⟨hrows, (paged_rows_are_host_rows wordLayout _ _ hrun rfl hrows).2.1⟩

/-! ## The single window -/

/-- The window reaches the bottom of an anchor it could be shown at, from another revision. -/
def Outdated (w : CachedViewportWindow Row) (a : TerminalHistoryWindowAnchor) : Prop :=
  w.anchor.epoch = a.epoch ∧ w.anchor.viewport = a.viewport ∧
    w.anchor.maxOffsetFromBottom = a.maxOffsetFromBottom ∧ (w.visibleRows 0).isSome = true ∧
    w.anchor.revision ≠ a.revision

/-- Operations that leave no outdated window: a newer anchor finds the reader at the bottom or no
held window that reaches it; a response to a reader above the bottom is of the latest revision if
it reaches the bottom, and a newer one finds no such window held. -/
def Calm (layout : Layout) (c : ViewportCache Row) (op : CacheOp Row) : Prop :=
  (∀ a latest w, op = .observe a → c.latestAnchor = some latest → c.window = some w →
    Outdated w a → a.revision < latest.revision ∨
      c.desiredOffsetFromBottom = 0 ∧ latest.revision < a.revision) ∧
    ∀ w install after latest, c.response layout op = some (w, .ok install, after) →
      c.latestAnchor = some latest →
      (0 < c.desiredOffsetFromBottom → w.anchor.revision < latest.revision →
        ¬ Outdated w latest) ∧
      ∀ held, c.window = some held → latest.revision < w.anchor.revision →
        ¬ Outdated held w.anchor

/-- No outdated window; nothing is held or asked for before an anchor is known. -/
structure Current (c : ViewportCache Row) : Prop where
  single : c.pages = none
  unknown : c.latestAnchor = none → c.window = none ∧ c.pendingQuery = none
  current : ∀ w latest, c.window = some w → c.latestAnchor = some latest → ¬ Outdated w latest

namespace Current

theorem of_window (hp : c.pages = none) (hw : c.window = none)
    (hq : c.latestAnchor = none → c.pendingQuery = none) : Current c :=
  ⟨hp, fun h => ⟨hw, hq h⟩, fun w latest h => by rw [hw] at h; cases h⟩

theorem congr (h : Current c) (hp : c'.pages = none) (hw : c'.window = c.window)
    (hl : c'.latestAnchor = c.latestAnchor)
    (hq : c.latestAnchor = none → c'.pendingQuery = none) : Current c' :=
  ⟨hp, fun hn => ⟨hw.trans (h.unknown (hl ▸ hn)).1, hq (hl ▸ hn)⟩, by
    rw [hw, hl]
    exact h.current⟩

theorem observe {a : TerminalHistoryWindowAnchor} (h : Current c)
    (hcalm : ∀ latest w, c.latestAnchor = some latest → c.window = some w → Outdated w a →
      a.revision < latest.revision ∨
        c.desiredOffsetFromBottom = 0 ∧ latest.revision < a.revision)
    (ho : Observed c a c') : Current c' := by
  have hdrop : c.pages.map (·.discardUnpinned) = none := by rw [h.single]; rfl
  -- where the window stays and the anchor is not older, the window is not outdated
  have hkeep : ∀ latest, c.latestAnchor = some latest → latest.revision ≤ a.revision →
      (a.revision = latest.revision ∨ 0 < c.desiredOffsetFromBottom) →
      ∀ w latest', c.window = some w → some a = some latest' → ¬ Outdated w latest' := by
    intro latest hl hr hn w latest' hw heq hout
    obtain rfl := Option.some.inj heq
    rcases hcalm latest w hl hw hout with hlt | ⟨hd, hlt⟩ <;> omega
  cases ho with
  | invalid => exact of_window hdrop rfl fun _ => rfl
  | first hl =>
    obtain ⟨hw, -⟩ := h.unknown hl
    exact of_window h.single hw (by simp)
  | older => exact h
  | reset => exact of_window hdrop rfl (by simp)
  | grown hl hr he hv hm hd => exact ⟨h.single, by simp, hkeep _ hl hr (.inr hd)⟩
  | live =>
    rw [h.single]
    exact of_window hdrop rfl (by simp)
  | steady hl hr he hv hm hd hn => exact ⟨h.single, by simp, hkeep _ hl hr hn⟩

theorem respond {window : CachedViewportWindow Row}
    {r : Except (CachedViewportWindow Row) ViewportCacheInstall × ViewportCache Row}
    (h : Current c)
    (hcalm : ∀ install latest, r.1 = .ok install → c.latestAnchor = some latest →
      (0 < c.desiredOffsetFromBottom → window.anchor.revision < latest.revision →
        ¬ Outdated window latest) ∧
      ∀ held, c.window = some held → latest.revision < window.anchor.revision →
        ¬ Outdated held window.anchor)
    (hi : Installed layout c window r) : Current r.2 := by
  have hknown : ∀ pending, c.pendingQuery = some pending →
      ∃ latest, c.latestAnchor = some latest := by
    intro pending hp
    cases hl : c.latestAnchor with
    | some latest => exact ⟨latest, rfl⟩
    | none =>
      have hn := (h.unknown hl).2
      rw [hp] at hn
      cases hn
  cases hi with
  | rejected => exact h
  | stale hp hv hl =>
    obtain ⟨latest, hlatest⟩ := hknown _ hp
    rw [hlatest] at hl
    subst hl
    exact h.congr h.single rfl hlatest.symm (by simp [hlatest])
  | dirty => exact h.congr h.single rfl rfl fun _ => rfl
  | @placed _ previous latest' desired kept hp hv hl hr hn hk install =>
    obtain ⟨latest, hlatest⟩ := hknown _ hp
    rw [hlatest] at hl
    subst hl
    obtain ⟨hold, hnew⟩ := hcalm install _ rfl hlatest
    have hkept : kept.latestAnchor = some latest' := by cases hk <;> rfl
    refine ⟨hk.single h.single, by simp [hkept], fun w found hw hfound hout => ?_⟩
    obtain rfl := Option.some.inj (hkept.symm.trans hfound)
    have hwindow : w = window ∨ c.window = some w := by
      cases hk with
      | replaced => exact .inl (Option.some.inj hw).symm
      | missed => exact .inr hw
      | inserted hpages => exact .inr hw
    rcases resolveResponse_cases hr with ⟨rfl, hdesired, he, hv, hle, hm⟩ | ⟨rfl, hlt⟩
    · rcases hwindow with rfl | hheld
      · have hne := hout.2.2.2.2
        by_cases hzero : c.desiredOffsetFromBottom = 0
        · have := hn h.single (hdesired.trans hzero)
          omega
        · exact hold (by omega) (by omega) hout
      · exact h.current w _ hheld hlatest hout
    · rcases hwindow with rfl | hheld
      · exact hout.2.2.2.2 rfl
      · exact hnew w hheld hlt hout

theorem step {op : CacheOp Row} (h : Current c) (hop : Calm layout c op) :
    Current (c.apply layout op) := by
  obtain ⟨hobserve, hrespond⟩ := hop
  have hstep := apply_step layout c op
  generalize c.issued layout op = request at hstep
  generalize c.apply layout op = after at hstep ⊢
  have hmap : ∀ f : Pages Row → Pages Row, c.pages.map f = none := fun f => by
    rw [h.single]; rfl
  cases hstep with
  | observe ho => exact h.observe (fun latest w => hobserve _ latest w rfl) ho
  | aim hl ha => cases ha with
    | quiet => exact h.congr (hmap _) rfl rfl (by simp [hl])
    | asked => exact h.congr (hmap _) rfl rfl (by simp [hl])
  | aimless => exact h
  | prefetch hl ha => cases ha with
    | quiet => exact h
    | asked => exact h.congr h.single rfl rfl (by simp [hl])
  | covered => exact h
  | @respond _ window r hr hi =>
    refine h.respond (fun install latest hok hl => ?_) hi
    exact hrespond window install r.2 latest (by rw [hr, ← hok]) hl
  | paged _ pages hs =>
    have hnone : pages = none := by simpa [h.single] using hs
    exact h.congr hnone rfl rfl fun hl => (h.unknown hl).2
  | invalidate => exact of_window (hmap _) rfl fun _ => rfl
  | invalidateRows => exact of_window (hmap _) rfl fun hl => (h.unknown hl).2
  | defer => exact h.congr h.single rfl rfl fun _ => rfl
  | present => exact h.congr h.single rfl rfl fun hl => (h.unknown hl).2
  | unpresentable => exact h

end Current

/-- In a run of calm operations the single window never shows rows of another revision at the
bottom. -/
theorem bottom_rows_are_current (layout : Layout) {c : ViewportCache Row}
    (h : CacheRun layout (Calm layout) .new c) {latest : TerminalHistoryWindowAnchor}
    {rows : List Row} (hl : c.latestAnchor = some latest) (hd : c.desiredOffsetFromBottom = 0)
    (hrows : c.visibleRows = some rows) :
    ∃ w, c.window = some w ∧ w.visibleRows 0 = some rows ∧
      w.anchor.revision = latest.revision := by
  have hcurrent : Current c := by
    refine Preserved.run ?_ h ⟨rfl, fun _ => ⟨rfl, rfl⟩, fun w latest hw => by cases hw⟩
    rintro c _ ⟨op, hop, rfl⟩ hc
    exact hc.step hop
  simp only [ViewportCache.visibleRows, ViewportCache.windowFor, hcurrent.single, hl, hd, bind,
    Option.bind_some, Option.bind_eq_some_iff] at hrows
  obtain ⟨⟨w, offset⟩, ⟨window, hw, found, ht, hfound⟩, hrows⟩ := hrows
  split at hfound
  · obtain ⟨rfl, rfl⟩ := Prod.mk.inj (Option.some.inj hfound)
    obtain ⟨he, hv, hm, hord⟩ := targetInWindowCoordinates_some ht
    obtain rfl : found = 0 := by omega
    refine ⟨window, hw, hrows, ?_⟩
    by_contra hr
    refine hcurrent.current window latest hw hl ⟨he.symm, hv.symm, by omega, ?_, hr⟩
    rw [hrows]
    rfl
  · cases hfound

/-- The reader at the bottom asked for the rows around it and got them. -/
def filledWindow : ViewportCache Nat :=
  [.observe (fourRows 1 8), .setTarget 0,
    .install ((Host.numbered fun _ => 8).window 1 0 (-8) 12) 12].foldl (·.apply wordLayout ·) .new

theorem bottom_rows_are_current_filled :
    filledWindow.visibleRows = some [108, 109, 110, 111] ∧
      ∃ w, filledWindow.window = some w ∧ w.visibleRows 0 = some [108, 109, 110, 111] ∧
        w.anchor.revision = 1 := by
  have hrows : filledWindow.visibleRows = some [108, 109, 110, 111] := by decide +kernel
  have hrun : CacheRun wordLayout (Calm wordLayout) .new filledWindow := by
    refine Permitted.run _ ⟨⟨?_, ?_⟩, ⟨?_, ?_⟩, ⟨?_, ?_⟩, trivial⟩
    · intro a latest w _ hl
      cases hl
    · intro w install after latest h
      cases h
    · intro a latest w h
      cases h
    · intro w install after latest h
      cases h
    · intro a latest w h
      cases h
    · intro w install after latest h hl
      obtain rfl := (Prod.mk.inj (Option.some.inj h)).1
      obtain rfl := Option.some.inj hl
      exact ⟨fun _ hlt => absurd hlt (by decide), fun _ _ hlt => absurd hlt (by decide)⟩
  exact ⟨hrows, bottom_rows_are_current wordLayout hrun rfl rfl hrows⟩

/-- The reader scrolled up in the filled window, the screen changed without growing the history,
and the reader came back. -/
def returnedToBottom : ViewportCache Nat :=
  [.setTarget 3, .observe (fourRows 2 8), .setTarget 0].foldl (·.apply wordLayout ·) filledWindow

/-- Back at the bottom, the rows of the older revision are shown as the latest's. -/
theorem bottom_rows_outdated :
    CacheRun wordLayout ((Host.numbered fun _ => 8).Reports wordLayout) .new returnedToBottom ∧
      returnedToBottom.latestAnchor = some (fourRows 2 8) ∧
      returnedToBottom.desiredOffsetFromBottom = 0 ∧
      returnedToBottom.visibleRows = some [108, 109, 110, 111] ∧
      returnedToBottom.window.map (·.anchor.revision) = some 1 := by
  refine ⟨?_, by decide +kernel, by decide +kernel, by decide +kernel, by decide +kernel⟩
  refine (Permitted.run [.observe _, .setTarget _, .install _ _] ?_).trans
    (Permitted.run [.setTarget _, .observe _, .setTarget _] ?_)
  · exact ⟨.observe 1 rfl, .setTarget 0, .install (Host.window_truthful _ 1 0 (-8) 12 rfl) 12,
      trivial⟩
  · exact ⟨.setTarget 3, .observe 2 rfl, .setTarget 0, trivial⟩

/-! ## Presented rows -/

/-- A commit of rows that are there. -/
def Presents (c : ViewportCache Row) (op : CacheOp Row) : Prop :=
  op = .commitVisible ∧ c.visibleRows.isSome = true

def Replaces (layout : Layout) (c : ViewportCache Row) (op : CacheOp Row) : Prop :=
  ∃ w install after latest, c.response layout op = some (w, .ok install, after) ∧
    c.latestAnchor = some latest ∧ latest.revision < w.anchor.revision ∧
    (w.anchor.epoch ≠ latest.epoch ∨ w.anchor.viewport ≠ latest.viewport)

/-- Operations that do not grow the history behind the presented offset: a newer response has
the latest maximum, and at the bottom an anchor of the latest revision has no larger one. -/
def Steady (layout : Layout) (c : ViewportCache Row) (op : CacheOp Row) : Prop :=
  (∀ a latest, op = .observe a → c.latestAnchor = some latest → a.revision = latest.revision →
    c.desiredOffsetFromBottom = 0 → a.maxOffsetFromBottom ≤ latest.maxOffsetFromBottom) ∧
    ∀ w install after latest, c.response layout op = some (w, .ok install, after) →
      c.latestAnchor = some latest → latest.revision < w.anchor.revision →
      w.anchor.maxOffsetFromBottom = latest.maxOffsetFromBottom

/-- An observed maximum is a 64-bit number. -/
def CacheOp.Fits (op : CacheOp Row) : Prop :=
  ∀ a, op = .observe a → a.maxOffsetFromBottom < 2 ^ 64

/-- The presented offset, if there is one, is at an ordinal of an epoch and viewport. -/
def PresentedAt (origin : TerminalHistoryWindowAnchor) (ordinal : Int) (c : ViewportCache Row) :
    Prop :=
  ∀ presented, c.presentedOffsetFromBottom = some presented → ∃ latest,
    c.latestAnchor = some latest ∧ latest.epoch = origin.epoch ∧
    latest.viewport = origin.viewport ∧ presented ≤ latest.maxOffsetFromBottom ∧
    (latest.maxOffsetFromBottom : Int) - presented = ordinal

namespace PresentedAt

variable {origin : TerminalHistoryWindowAnchor} {ordinal : Int}

theorem of_none (h : c.presentedOffsetFromBottom = none) : PresentedAt origin ordinal c :=
  fun presented hp => by rw [h] at hp; cases hp

theorem congr (h : PresentedAt origin ordinal c)
    (hp : c'.presentedOffsetFromBottom = c.presentedOffsetFromBottom)
    (hl : c'.latestAnchor = c.latestAnchor) : PresentedAt origin ordinal c' := by
  unfold PresentedAt
  rw [hp, hl]
  exact h

theorem moved (h : PresentedAt origin ordinal c) {a latest : TerminalHistoryWindowAnchor}
    (hl : c.latestAnchor = some latest) (he : latest.epoch = a.epoch)
    (hv : latest.viewport = a.viewport)
    (hm : a.maxOffsetFromBottom = latest.maxOffsetFromBottom)
    (hp : c'.presentedOffsetFromBottom = c.presentedOffsetFromBottom)
    (hl' : c'.latestAnchor = some a) : PresentedAt origin ordinal c' := by
  intro presented hpresented
  obtain ⟨known, hknown, hepoch, hviewport, hle, hord⟩ := h presented (hp ▸ hpresented)
  obtain rfl := Option.some.inj (hknown.symm.trans hl)
  exact ⟨a, hl', he ▸ hepoch, hv ▸ hviewport, hm ▸ hle, by rw [hm]; exact hord⟩

theorem observe {a : TerminalHistoryWindowAnchor} (h : PresentedAt origin ordinal c)
    (hfits : a.maxOffsetFromBottom < 2 ^ 64)
    (hsteady : ∀ latest, c.latestAnchor = some latest → a.revision = latest.revision →
      c.desiredOffsetFromBottom = 0 → a.maxOffsetFromBottom ≤ latest.maxOffsetFromBottom)
    (ho : Observed c a c') : PresentedAt origin ordinal c' := by
  cases ho with
  | invalid => exact of_none rfl
  | first hl =>
    intro presented hp
    obtain ⟨latest, hknown, -⟩ := h presented hp
    rw [hl] at hknown
    cases hknown
  | older => exact h
  | reset => exact of_none rfl
  | grown hl hr he hv hm hd =>
    intro presented hp
    obtain ⟨offset, hoffset, rfl⟩ := Option.map_eq_some_iff.mp hp
    obtain ⟨known, hknown, hepoch, hviewport, hle, hord⟩ := h offset hoffset
    obtain rfl := Option.some.inj (hknown.symm.trans hl)
    refine ⟨a, rfl, he ▸ hepoch, hv ▸ hviewport, min_le_right _ _, ?_⟩
    -- the offset and the maximum grow by the same amount, below the 64-bit bound
    have hsum : saturatingAdd offset (a.maxOffsetFromBottom - known.maxOffsetFromBottom) =
        offset + (a.maxOffsetFromBottom - known.maxOffsetFromBottom) :=
      min_eq_left (by omega)
    omega
  | live => exact of_none rfl
  | steady hl hr he hv hm hd hn =>
    refine h.moved hl he hv ?_ rfl rfl
    have := hsteady _ hl
    omega

theorem respond {window : CachedViewportWindow Row}
    {r : Except (CachedViewportWindow Row) ViewportCacheInstall × ViewportCache Row}
    (h : PresentedAt origin ordinal c)
    (hsame : ∀ install latest, r.1 = .ok install → c.latestAnchor = some latest →
      latest.revision < window.anchor.revision →
        window.anchor.epoch = latest.epoch ∧ window.anchor.viewport = latest.viewport ∧
          window.anchor.maxOffsetFromBottom = latest.maxOffsetFromBottom)
    (hi : Installed layout c window r) : PresentedAt origin ordinal r.2 := by
  -- without an anchor nothing is presented
  have hknown : c.latestAnchor = none → c.presentedOffsetFromBottom = none := by
    intro hl
    cases hp : c.presentedOffsetFromBottom with
    | none => rfl
    | some presented =>
      obtain ⟨latest, hlatest, -⟩ := h presented hp
      rw [hl] at hlatest
      cases hlatest
  cases hi with
  | rejected => exact h
  | stale hp hv hl =>
    cases hc : c.latestAnchor with
    | none => exact of_none (hknown hc)
    | some latest =>
      rw [hc] at hl
      subst hl
      exact h.congr rfl hc.symm
  | dirty => exact h.congr rfl rfl
  | @placed _ previous latest' desired kept hp hv hl hr hn hk install =>
    have hlatest' : kept.latestAnchor = some latest' := by cases hk <;> rfl
    have hpresented : kept.presentedOffsetFromBottom = c.presentedOffsetFromBottom := by
      cases hk <;> rfl
    cases hc : c.latestAnchor with
    | none => exact of_none (hpresented.trans (hknown hc))
    | some latest =>
      rw [hc] at hl
      subst hl
      rcases resolveResponse_cases hr with ⟨rfl, -⟩ | ⟨rfl, hlt⟩
      · exact h.congr hpresented (hlatest'.trans hc.symm)
      · obtain ⟨he, hv, hm⟩ := hsame install _ rfl hc hlt
        exact h.moved hc he.symm hv.symm hm hpresented hlatest'

theorem step {op : CacheOp Row} (h : PresentedAt origin ordinal c) (hp : ¬ Presents c op)
    (hr : ¬ Replaces layout c op) (hf : op.Fits) (hs : Steady layout c op) :
    PresentedAt origin ordinal (c.apply layout op) := by
  obtain ⟨hobserve, hrespond⟩ := hs
  have hstep := apply_step layout c op
  generalize c.issued layout op = request at hstep
  generalize c.apply layout op = after at hstep ⊢
  cases hstep with
  | observe ho => exact h.observe (hf _ rfl) (fun latest => hobserve _ latest rfl) ho
  | aim hl ha => cases ha <;> exact h.congr rfl rfl
  | prefetch hl ha => cases ha <;> exact h.congr rfl rfl
  | @respond _ window r hop hi =>
    refine h.respond (fun install latest hok hl hlt => ?_) hi
    have hop' : c.response layout op = some (window, .ok install, r.2) := by rw [hop, ← hok]
    refine ⟨?_, ?_, hrespond window install r.2 latest hop' hl hlt⟩
    · by_contra he
      exact hr ⟨window, install, r.2, latest, hop', hl, hlt, .inl he⟩
    · by_contra hv
      exact hr ⟨window, install, r.2, latest, hop', hl, hlt, .inr hv⟩
  | present hv => exact absurd ⟨rfl, hv⟩ hp
  | invalidate | invalidateRows => exact of_none rfl
  | aimless | covered | unpresentable => exact h
  | defer | paged => exact h.congr rfl rfl

end PresentedAt

/-- In a run of steady operations after a commit, presented rows are those at the ordinals that
were committed, until another commit or another epoch or viewport. -/
theorem presented_rows_stay (layout : Layout) (budget : Option ViewportCacheBudget)
    {c₀ c : ViewportCache Row} (h₀ : CacheRun layout (fun _ _ => True) (.start budget) c₀)
    {origin : TerminalHistoryWindowAnchor} (hl : c₀.latestAnchor = some origin)
    (hv : c₀.visibleRows.isSome = true)
    (h : CacheRun layout
      (fun c op => ¬ Presents c op ∧ ¬ Replaces layout c op ∧ op.Fits ∧ Steady layout c op)
      (c₀.apply layout .commitVisible) c)
    {rows : List Row} (hrows : c.presentedRows = some rows) :
    ∃ w ∈ c.windows, ∃ start : Nat, w.anchor.epoch = origin.epoch ∧
      w.anchor.viewport = origin.viewport ∧
      rows = (w.rows.drop start).take origin.viewport.rows ∧
      start + origin.viewport.rows ≤ w.rows.length ∧
      (w.anchor.maxOffsetFromBottom : Int) + w.firstRowFromLiveTop + start =
        origin.maxOffsetFromBottom - c₀.desiredOffsetFromBottom := by
  have hbound := run_bounded h₀
  simp only [Bounded, hl] at hbound
  have hpresented : PresentedAt origin
      (origin.maxOffsetFromBottom - c₀.desiredOffsetFromBottom) c := by
    refine Preserved.run ?_ h fun presented hp => ?_
    · rintro c _ ⟨op, ⟨hp, hr, hf, hs⟩, rfl⟩ hc
      exact hc.step hp hr hf hs
    · have hnone : c₀.visibleRows.isNone = false := by
        rw [← Option.not_isSome, hv]; rfl
      simp only [ViewportCache.apply, ViewportCache.commitVisiblePresentation, hnone,
        Bool.false_eq_true, ↓reduceIte, Option.some.injEq] at hp ⊢
      subst hp
      exact ⟨origin, hl, rfl, rfl, hbound, rfl⟩
  obtain ⟨latest, presented, hlatest, hp, w, start, hshown⟩ := presentedRows_shown hrows
  obtain ⟨known, hknown, he, hviewport, -, hord⟩ := hpresented presented hp
  obtain rfl := Option.some.inj (hknown.symm.trans hlatest)
  rw [← he, ← hviewport, ← hord]
  exact ⟨w, hshown.held, start, hshown.epoch, hshown.viewport, hshown.slice, hshown.inside,
    hshown.ordinal⟩

/-- Twenty rows of history, and two more from the second revision on. -/
def growingHost : Host Nat := .numbered fun revision => if revision ≤ 1 then 20 else 22

def nineAbove : ViewportCache Nat :=
  [.observe (fourRows 1 20), .setTarget 3, .install (growingHost.window 1 3 (-11) 12) 12,
    .setTarget 9].foldl (·.apply wordLayout ·) .new

theorem nineAbove_run : CacheRun wordLayout (fun _ _ => True) (.start none) nineAbove :=
  Permitted.run _ ⟨trivial, trivial, trivial, trivial, trivial⟩

/-- An observation of the grown history moves the presented offset along. -/
theorem presented_rows_stay_observed :
    ((nineAbove.apply wordLayout .commitVisible).apply wordLayout
        (.observe (fourRows 2 22))).presentedRows = some [11, 12, 13, 14] ∧
      ∃ w ∈ ((nineAbove.apply wordLayout .commitVisible).apply wordLayout
        (.observe (fourRows 2 22))).windows, ∃ start : Nat,
        [11, 12, 13, 14] = (w.rows.drop start).take 4 ∧
          (w.anchor.maxOffsetFromBottom : Int) + w.firstRowFromLiveTop + start = 20 - 9 := by
  have hrows : ((nineAbove.apply wordLayout .commitVisible).apply wordLayout
      (.observe (fourRows 2 22))).presentedRows = some [11, 12, 13, 14] := by decide +kernel
  have hlatest : (nineAbove.apply wordLayout .commitVisible).latestAnchor =
      some (fourRows 1 20) := by decide +kernel
  have hsteady : Steady wordLayout (nineAbove.apply wordLayout .commitVisible)
      (.observe (fourRows 2 22)) := by
    refine ⟨fun a latest h hl hr => ?_, fun w install after latest h => by cases h⟩
    cases h
    obtain rfl := Option.some.inj (hlatest.symm.trans hl)
    cases hr
  have hrun : CacheRun wordLayout (fun c op => ¬ Presents c op ∧ ¬ Replaces wordLayout c op ∧
        op.Fits ∧ Steady wordLayout c op) (nineAbove.apply wordLayout .commitVisible)
      ((nineAbove.apply wordLayout .commitVisible).apply wordLayout (.observe (fourRows 2 22))) := by
    refine .single ⟨.observe (fourRows 2 22), ⟨?_, ?_, ?_, hsteady⟩, rfl⟩
    · rintro ⟨h, -⟩
      cases h
    · rintro ⟨w, install, after, latest, h, -⟩
      cases h
    · intro a h
      cases h
      decide
  obtain ⟨w, hw, start, -, -, hslice, -, hord⟩ :=
    presented_rows_stay wordLayout none nineAbove_run rfl (by decide +kernel) hrun hrows
  exact ⟨hrows, w, hw, start, hslice, hord⟩

/-- After the commit the reader moves up by one, and the rows around it arrive with the grown
history. -/
def answeredLater : ViewportCache Nat :=
  [.commitVisible, .setTarget 10, .install (growingHost.window 2 12 (-16) 12) 12].foldl
    (·.apply wordLayout ·) nineAbove

/-- The presented offset did not move with the response: the rows of ordinals 11 to 14 were
committed, those of 13 to 16 are returned. -/
theorem presented_rows_moved :
    CacheRun wordLayout (growingHost.Reports wordLayout) .new nineAbove ∧
      nineAbove.visibleRows = some [11, 12, 13, 14] ∧
      (nineAbove.apply wordLayout .commitVisible).presentedRows = some [11, 12, 13, 14] ∧
      growingHost.Truthful (growingHost.window 2 12 (-16) 12) ∧
      answeredLater.latestAnchor = some (fourRows 2 22) ∧
      answeredLater.presentedRows = some [13, 14, 15, 16] := by
  refine ⟨Permitted.run _ ⟨.observe 1 rfl, .setTarget 3,
      .install (growingHost.window_truthful 1 3 (-11) 12 rfl) 12, .setTarget 9, trivial⟩,
    by decide +kernel, by decide +kernel, growingHost.window_truthful 2 12 (-16) 12 rfl,
    by decide +kernel, by decide +kernel⟩

end Voytty.Core
