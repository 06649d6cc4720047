import Voytty.Lib.Transition
import Voytty.Core.ViewportCache

/-!
# What cache operations do

One lemma per operation of the viewport cache: `Observed` and `Installed` list
the outcomes of an observation and of a response, `Asks` what a request does,
and `CacheStep` puts them together. From it: what a rejected or accepted response
may change, when a request may be issued, and the bounds on the desired offset
and on the latest revision (`history_request_protocol`).
-/

namespace Voytty.Core

open Voytty.Terminal Voytty.Lib

variable {Row : Type} {layout : Layout} {c c' : ViewportCache Row}

/-! ## Observations -/

inductive Observed (c : ViewportCache Row) (a : TerminalHistoryWindowAnchor) :
    ViewportCache Row → Prop where
  | invalid (h : a.isValid = false) :
      Observed c a { c.dropRows with
        latestAnchor := none, desiredOffsetFromBottom := 0, presentedOffsetFromBottom := none
        pendingQuery := none }
  | first (h : c.latestAnchor = none) : Observed c a { c with latestAnchor := some a }
  | older {latest : TerminalHistoryWindowAnchor} (h : c.latestAnchor = some latest)
      (hr : a.revision < latest.revision) : Observed c a c
  | reset {latest : TerminalHistoryWindowAnchor} (h : c.latestAnchor = some latest)
      (hr : latest.revision ≤ a.revision) :
      Observed c a { c.dropRows with
        latestAnchor := some a
        desiredOffsetFromBottom := min c.desiredOffsetFromBottom a.maxOffsetFromBottom
        presentedOffsetFromBottom := none }
  | grown {latest : TerminalHistoryWindowAnchor} (h : c.latestAnchor = some latest)
      (hr : latest.revision ≤ a.revision) (he : latest.epoch = a.epoch)
      (hv : latest.viewport = a.viewport)
      (hm : latest.maxOffsetFromBottom < a.maxOffsetFromBottom)
      (hd : 0 < c.desiredOffsetFromBottom) :
      Observed c a { c with
        latestAnchor := some a
        desiredOffsetFromBottom := min (saturatingAdd c.desiredOffsetFromBottom
          (a.maxOffsetFromBottom - latest.maxOffsetFromBottom)) a.maxOffsetFromBottom
        presentedOffsetFromBottom := c.presentedOffsetFromBottom.map fun offset =>
          min (saturatingAdd offset (a.maxOffsetFromBottom - latest.maxOffsetFromBottom))
            a.maxOffsetFromBottom }
  | live {latest : TerminalHistoryWindowAnchor} (h : c.latestAnchor = some latest)
      (hr : latest.revision < a.revision) (he : latest.epoch = a.epoch)
      (hv : latest.viewport = a.viewport)
      (hm : latest.maxOffsetFromBottom ≤ a.maxOffsetFromBottom)
      (hd : c.desiredOffsetFromBottom = 0) :
      Observed c a { (if c.pages.isNone then c.dropRows else c) with
        latestAnchor := some a, desiredOffsetFromBottom := c.desiredOffsetFromBottom
        presentedOffsetFromBottom := none }
  | steady {latest : TerminalHistoryWindowAnchor} (h : c.latestAnchor = some latest)
      (hr : latest.revision ≤ a.revision) (he : latest.epoch = a.epoch)
      (hv : latest.viewport = a.viewport)
      (hm : latest.maxOffsetFromBottom ≤ a.maxOffsetFromBottom)
      (hd : latest.maxOffsetFromBottom = a.maxOffsetFromBottom ∨ c.desiredOffsetFromBottom = 0)
      (hn : a.revision = latest.revision ∨ 0 < c.desiredOffsetFromBottom) :
      Observed c a { c with latestAnchor := some a }

variable {latest : TerminalHistoryWindowAnchor} {window : CachedViewportWindow Row}
  {op : CacheOp Row} {query : TerminalHistoryWindowQuery}

theorem compatibleObservation_cases (c : ViewportCache Row) {a : TerminalHistoryWindowAnchor}
    (h : c.latestAnchor = some latest) (hr : latest.revision ≤ a.revision)
    (he : latest.epoch = a.epoch) (hv : latest.viewport = a.viewport)
    (hm : latest.maxOffsetFromBottom ≤ a.maxOffsetFromBottom) :
    Observed c a (c.commitAnchorObservation (c.compatibleObservation latest a)).2 := by
  unfold ViewportCache.compatibleObservation
  dsimp only
  split
  · rename_i hg
    exact .grown h hr he hv (by omega) hg.2
  rename_i hg
  split
  · rename_i hn
    have hlive := Observed.live h hn.1 he hv hm hn.2
    unfold ViewportCache.commitAnchorObservation ViewportCache.anchorObservation
    cases hp : c.pages.isNone <;> simp only [hp, ↓reduceIte, Bool.false_eq_true] at hlive ⊢ <;>
      exact hlive
  · rename_i hn
    exact .steady h hr he hv hm (by omega) (by omega)

theorem observeAnchor_cases (c : ViewportCache Row) (a : TerminalHistoryWindowAnchor) :
    Observed c a (c.observeAnchor a).2 := by
  unfold ViewportCache.observeAnchor ViewportCache.previewAnchorObservation
  split
  · rename_i hvalid
    exact .invalid (by simpa using hvalid)
  split
  · rename_i hlatest
    exact .first hlatest
  rename_i latest hlatest
  split
  · rename_i hr
    exact .older hlatest hr
  rename_i hr
  split
  · exact .reset hlatest (by omega)
  · rename_i hid
    push Not at hid
    exact compatibleObservation_cases c hlatest (by omega) hid.1 hid.2.1 hid.2.2

/-! ## Requests -/

/-- What a request may do: nothing, or make its query pending when none was. -/
inductive Asks (c : ViewportCache Row) :
    Option TerminalHistoryWindowQuery × ViewportCache Row → Prop where
  | quiet : Asks c (none, c)
  | asked (query : TerminalHistoryWindowQuery) (h : c.pendingQuery = none) :
      Asks c (some query, { c with pendingQuery := some query })

theorem setTarget_cases (c : ViewportCache Row) (target : Nat) :
    (c.latestAnchor = none ∧ c.setTarget target = (⟨false, none⟩, c)) ∨
      ∃ latest, c.latestAnchor = some latest ∧
        Asks (c.aim latest (min target latest.maxOffsetFromBottom))
          ((c.setTarget target).1.request, (c.setTarget target).2) := by
  unfold ViewportCache.setTarget
  split
  · exact .inl ⟨‹_›, rfl⟩
  · rename_i latest hlatest
    refine .inr ⟨latest, hlatest, ?_⟩
    dsimp only
    split
    · rename_i hask
      exact .asked _ (by simpa using hask.1)
    · exact .quiet

theorem prefetchScreens_cases (c : ViewportCache Row) (hp : c.pendingQuery = none)
    (anchor : TerminalHistoryWindowAnchor) (offset : Nat) (older : Bool) (screens : List Nat) :
    Asks c (c.prefetchScreens anchor offset older screens) := by
  induction screens with
  | nil => exact .quiet
  | cons screen screens ih =>
    unfold ViewportCache.prefetchScreens
    dsimp only
    split
    · exact .quiet
    split
    · exact .asked _ hp
    · exact ih

theorem prefetchToward_cases (c : ViewportCache Row) (offset : Nat) (older : Bool)
    (screens : Nat) :
    c.prefetchToward offset older screens = (none, c) ∨
      ∃ latest, c.latestAnchor = some latest ∧ Asks c (c.prefetchToward offset older screens) := by
  unfold ViewportCache.prefetchToward
  split
  · rename_i latest _ hp hl
    exact .inr ⟨latest, hl, prefetchScreens_cases c hp ..⟩
  · exact .inl rfl

/-! ## Responses -/

/-- The rows a response leaves: for the single window, the response or the old one; for pages,
the response among those that were kept. -/
inductive Kept (layout : Layout) (c : ViewportCache Row) (latest : TerminalHistoryWindowAnchor)
    (window : CachedViewportWindow Row) : ViewportCache Row → Prop where
  | replaced (h : c.pages = none) : Kept layout c latest window { c with window := some window }
  | missed (h : c.pages = none) : Kept layout c latest window c
  | inserted {pages : Pages Row} (h : c.pages = some pages) (pages' : Pages Row)
      (hw : pages' = pages ∨ pages' = pages.discardUnpinned) (reserved nestedBytes : Nat) :
      Kept layout c latest window
        { c with pages := some (pages'.insert layout window reserved nestedBytes).2 }

theorem keepWindow_cases (layout : Layout) (c : ViewportCache Row)
    (latest : TerminalHistoryWindowAnchor) (same : Bool) (window : CachedViewportWindow Row)
    (reserved nestedBytes : Nat) :
    Kept layout c latest window
      (c.keepWindow layout latest same window reserved nestedBytes).2.2 := by
  unfold ViewportCache.keepWindow
  split
  · rename_i hp
    dsimp only
    split
    · exact .replaced hp
    · exact .missed hp
  · rename_i pages hp
    refine .inserted hp (if same then pages else pages.discardUnpinned) ?_ reserved nestedBytes
    split
    · exact .inl rfl
    · exact .inr rfl

inductive Installed (layout : Layout) (c : ViewportCache Row) (window : CachedViewportWindow Row) :
    Except (CachedViewportWindow Row) ViewportCacheInstall × ViewportCache Row → Prop where
  | rejected : Installed layout c window (.error window, c)
  | stale {pending previous : _} (hp : c.pendingQuery = some pending)
      (hv : window.isValidFor pending = true) (hl : previous = c.latestAnchor.getD window.anchor)
      (request : Option TerminalHistoryWindowQuery) :
      Installed layout c window (.ok ⟨false, false, request⟩, { c with
        latestAnchor := some previous
        desiredOffsetFromBottom := min c.desiredOffsetFromBottom previous.maxOffsetFromBottom
        pendingQuery := request })
  | dirty {pending : _} (hp : c.pendingQuery = some pending)
      (hv : window.isValidFor pending = true) :
      Installed layout c window (.ok ⟨false, false, none⟩, { c with pendingQuery := none })
  | placed {pending previous latest : _} {desired : Nat} {kept : ViewportCache Row}
      (hp : c.pendingQuery = some pending) (hv : window.isValidFor pending = true)
      (hl : previous = c.latestAnchor.getD window.anchor)
      (hr : { c with pendingQuery := none }.resolveResponse pending window previous =
        some (latest, desired))
      (hn : c.pages = none → desired = 0 → latest.revision ≤ window.anchor.revision)
      (hk : Kept layout { c with
        pendingQuery := none, latestAnchor := some latest
        desiredOffsetFromBottom := min desired latest.maxOffsetFromBottom } latest window kept)
      (install : ViewportCacheInstall) :
      Installed layout c window (.ok install, { kept with pendingQuery := install.request })

theorem Kept.pending (h : Kept layout c latest window c') : c'.pendingQuery = c.pendingQuery := by
  cases h <;> rfl

theorem installAccountedWindow_cases (layout : Layout) (c : ViewportCache Row)
    (window : CachedViewportWindow Row) (reserved nestedBytes : Nat) :
    Installed layout c window (c.installAccountedWindow layout window reserved nestedBytes) := by
  unfold ViewportCache.installAccountedWindow
  split
  · exact .rejected
  rename_i pending hp
  split
  · exact .rejected
  rename_i hv
  replace hv : window.isValidFor pending = true := by simpa using hv
  dsimp only
  split
  · unfold ViewportCache.followLatestAfterStaleResponse
    dsimp only
    split
    · exact .stale hp hv rfl _
    · exact .stale hp hv rfl none
  rename_i latest desired hr
  split
  · exact .dirty hp hv
  rename_i hdirty
  have hdue : c.pages = none → desired = 0 → latest.revision ≤ window.anchor.revision := by
    intro hpages hzero
    by_contra hlt
    exact hdirty ⟨by rw [hpages]; rfl, hzero, by omega⟩
  unfold ViewportCache.place
  dsimp only
  have hk := keepWindow_cases layout { c with
      pendingQuery := none, latestAnchor := some latest
      desiredOffsetFromBottom := min desired latest.maxOffsetFromBottom } latest
    (ViewportCache.sameIdentity (c.latestAnchor.getD window.anchor) window.anchor) window
    reserved nestedBytes
  split
  · exact .placed hp hv rfl hr hdue hk ⟨_, _, some _⟩
  · have hn := hk.pending
    generalize ViewportCache.keepWindow layout _ latest _ window reserved nestedBytes = kept at hk hn ⊢
    obtain ⟨capacityRejected, covers, kept⟩ := kept
    replace hn : kept.pendingQuery = none := hn
    have heta : { kept with pendingQuery := none } = kept := by rw [← hn]
    have hplaced := Installed.placed hp hv rfl hr hdue hk ⟨capacityRejected, covers, none⟩
    dsimp only at hplaced ⊢
    rwa [heta] at hplaced

theorem resolveResponse_cases {pending : TerminalHistoryWindowQuery}
    {previous : TerminalHistoryWindowAnchor} {desired : Nat}
    (h : c.resolveResponse pending window previous = some (latest, desired)) :
    (latest = previous ∧ desired = c.desiredOffsetFromBottom ∧
      window.anchor.epoch = previous.epoch ∧ window.anchor.viewport = previous.viewport ∧
      window.anchor.revision ≤ previous.revision ∧
      window.anchor.maxOffsetFromBottom ≤ previous.maxOffsetFromBottom) ∨
    (latest = window.anchor ∧ previous.revision < window.anchor.revision) := by
  have hsame : ViewportCache.sameIdentity previous window.anchor = true ↔
      previous.epoch = window.anchor.epoch ∧ previous.viewport = window.anchor.viewport := by
    simp [ViewportCache.sameIdentity]
  unfold ViewportCache.resolveResponse at h
  simp only [Bool.and_eq_true, Bool.not_eq_true', decide_eq_true_eq, decide_eq_false_iff_not,
    gt_iff_lt] at h
  split at h
  · cases h
  rename_i hnewer
  split at h
  · cases h
  rename_i hgrown
  split at h
  · rename_i hknown
    obtain ⟨rfl, rfl⟩ := Prod.mk.inj (Option.some.inj h)
    obtain ⟨he, hv⟩ := hsame.mp hknown.1.1
    exact .inl ⟨rfl, rfl, he.symm, hv.symm, hknown.1.2, hknown.2⟩
  · rename_i hknown
    obtain ⟨rfl, -⟩ := Prod.mk.inj (Option.some.inj h)
    refine .inr ⟨rfl, ?_⟩
    cases hs : ViewportCache.sameIdentity previous window.anchor with
    | false =>
      have := not_and.mp hnewer hs
      omega
    | true =>
      simp only [hs, true_and] at hgrown hknown
      omega

theorem installWindow_cases (layout : Layout) (c : ViewportCache Row)
    (window : CachedViewportWindow Row) (reserved : Nat) :
    Installed layout c window (c.installWindow layout window reserved) := by
  unfold ViewportCache.installWindow
  split
  · exact .rejected
  · exact installAccountedWindow_cases ..

/-! ## Pages -/

namespace Pages

variable (p : Pages Row)

def windows : List (CachedViewportWindow Row) := p.entries.map (·.window)

theorem touch_windows (latest : TerminalHistoryWindowAnchor) (target : Nat) :
    (p.touch latest target).windows ⊆ p.windows := by
  unfold touch
  split
  · exact List.Subset.refl _
  rename_i i _
  refine List.map_subset _ fun page hpage => ?_
  rcases List.mem_append.mp hpage with hpage | hpage
  · exact List.mem_of_mem_eraseIdx hpage
  · exact List.mem_of_getElem? (Option.mem_toList.mp hpage)

theorem modify_windows (entries : List (Page Row)) (i : Nat) (f : Nat → Nat) :
    (entries.modify i fun page => { page with pins := f page.pins }).map (·.window) =
      entries.map (·.window) := by
  refine List.ext_getElem? fun j => ?_
  simp only [List.getElem?_map, List.getElem?_modify]
  split
  · cases entries[j]? <;> rfl
  · simp

theorem pin_windows (latest : TerminalHistoryWindowAnchor) (target : Nat) :
    (p.pin latest target).2.windows = p.windows := by
  unfold pin
  split
  · rfl
  · exact modify_windows p.entries _ (· + 1)

theorem unpin_windows (i : Nat) : (p.unpin i).windows = p.windows :=
  modify_windows p.entries i (· - 1)

theorem discardUnpinned_windows : p.discardUnpinned.windows ⊆ p.windows :=
  List.map_subset _ (List.filter_subset_self p.entries)

theorem makeRoom_windows (layout : Layout) (rows bytes fuel : Nat) :
    (makeRoom layout rows bytes fuel p).2.windows ⊆ p.windows := by
  induction fuel generalizing p with
  | zero =>
    unfold makeRoom
    split
    · exact List.Subset.refl _
    · split
      · contradiction
      · exact List.Subset.refl _
  | succ fuel ih =>
    unfold makeRoom
    split
    · exact List.Subset.refl _
    split
    · rename_i i _ hfuel
      obtain rfl := Nat.succ.inj hfuel
      exact List.Subset.trans (ih _)
        (List.map_subset _ fun page hpage => List.mem_of_mem_eraseIdx hpage)
    · exact List.Subset.refl _

theorem insert_windows (layout : Layout) (window : CachedViewportWindow Row)
    (reserved nestedBytes : Nat) :
    (p.insert layout window reserved nestedBytes).2.windows ⊆ p.windows ++ [window] := by
  unfold insert
  dsimp only
  split
  · exact List.subset_append_left _ _
  have hroom := p.makeRoom_windows layout window.rows.length
  split <;> rename_i hm
  · refine List.Subset.trans ?_ (List.subset_append_left _ _)
    exact hm ▸ hroom _ _
  · intro w hw
    simp only [windows, List.map_append, List.mem_append, List.map_cons, List.map_nil] at hw ⊢
    refine hw.imp_left fun hw => ?_
    exact (hm ▸ hroom _ _) hw

end Pages

def ViewportCache.windows (c : ViewportCache Row) : List (CachedViewportWindow Row) :=
  c.window.toList ++ c.pages.toList.flatMap (·.windows)

theorem ViewportCache.dropRows_windows (c : ViewportCache Row) : c.dropRows.windows ⊆ c.windows := by
  unfold windows dropRows
  cases c.pages with
  | none => simp
  | some pages =>
    simpa using List.Subset.trans pages.discardUnpinned_windows (List.subset_append_right _ _)

/-! ## One operation -/

namespace ViewportCache

variable (layout : Layout) (c : ViewportCache Row)

def response : CacheOp Row → Option (CachedViewportWindow Row ×
    Except (CachedViewportWindow Row) ViewportCacheInstall × ViewportCache Row)
  | .install window reserved => some (window, c.installWindow layout window reserved)
  | .installAccounted window reserved nestedBytes =>
    some (window, c.installAccountedWindow layout window reserved nestedBytes)
  | _ => none

def captured : CacheOp Row → Option (CachedViewportWindow Row)
  | .captureLive rows _ _ => c.latestAnchor.map fun latest => ⟨.exact, latest, 0, 0, rows⟩
  | .captureLiveAt anchor rows _ _ => some ⟨.exact, anchor, 0, 0, rows⟩
  | _ => none

end ViewportCache

/-- Captures and pins. -/
def CacheOp.OnPages : CacheOp Row → Prop
  | .captureLive .. | .captureLiveAt .. | .pinVisible | .unpin _ => True
  | _ => False

def CacheOp.Invalidates : CacheOp Row → Prop
  | .invalidate => True
  | .observe anchor => anchor.isValid = false
  | _ => False

theorem response_installed
    {r : Except (CachedViewportWindow Row) ViewportCacheInstall × ViewportCache Row}
    (h : c.response layout op = some (window, r)) : Installed layout c window r := by
  cases op with
  | install window reserved =>
    obtain ⟨rfl, rfl⟩ := Prod.mk.inj (Option.some.inj h)
    exact installWindow_cases ..
  | installAccounted window reserved nestedBytes =>
    obtain ⟨rfl, rfl⟩ := Prod.mk.inj (Option.some.inj h)
    exact installAccountedWindow_cases ..
  | _ => cases h

/-- What each operation does: the request it issues and the cache after it. -/
inductive CacheStep (layout : Layout) (c : ViewportCache Row) :
    CacheOp Row → Option TerminalHistoryWindowQuery → ViewportCache Row → Prop where
  | observe {a : _} {c' : ViewportCache Row} (h : Observed c a c')
      (hv : a.isValid = true ∨ c'.latestAnchor = none) : CacheStep layout c (.observe a) none c'
  | aim {target : Nat} {latest : _} {r : _} (hl : c.latestAnchor = some latest)
      (h : Asks (c.aim latest (min target latest.maxOffsetFromBottom)) r) :
      CacheStep layout c (.setTarget target) r.1 r.2
  | aimless {target : Nat} (hl : c.latestAnchor = none) :
      CacheStep layout c (.setTarget target) none c
  | prefetch {offset screens : Nat} {older : Bool} {latest : _} {r : _}
      (hl : c.latestAnchor = some latest) (h : Asks c r) :
      CacheStep layout c (.prefetch offset older screens) r.1 r.2
  | covered {offset screens : Nat} {older : Bool} :
      CacheStep layout c (.prefetch offset older screens) none c
  | respond {op : CacheOp Row} {window : CachedViewportWindow Row} {r : _}
      (hop : c.response layout op = some (window, r)) (h : Installed layout c window r) :
      CacheStep layout c op (r.1.toOption.bind (·.request)) r.2
  | defer : CacheStep layout c .defer none { c with pendingQuery := none }
  | present (h : c.visibleRows.isSome = true) :
      CacheStep layout c .commitVisible none
        { c with presentedOffsetFromBottom := some c.desiredOffsetFromBottom }
  | unpresentable (h : c.visibleRows = none) : CacheStep layout c .commitVisible none c
  | paged {op : CacheOp Row} (hop : op.OnPages) (pages : Option (Pages Row))
      (hs : pages.isSome = c.pages.isSome)
      (hw : pages.toList.flatMap (·.windows) ⊆
        c.pages.toList.flatMap (·.windows) ++ (c.captured op).toList) :
      CacheStep layout c op none { c with pages }
  | invalidate : CacheStep layout c .invalidate none c.invalidate
  | invalidateRows : CacheStep layout c .invalidateRows none c.invalidateRows

theorem captureLiveAt_cases (layout : Layout) (c : ViewportCache Row)
    (anchor : TerminalHistoryWindowAnchor) (rows : List Row) (reserved nestedBytes : Nat) :
    ∃ pages, (c.captureLiveAt layout anchor rows reserved nestedBytes).2 = { c with pages } ∧
      pages.isSome = c.pages.isSome ∧
      pages.toList.flatMap (·.windows) ⊆
        c.pages.toList.flatMap (·.windows) ++ [⟨.exact, anchor, 0, 0, rows⟩] := by
  unfold ViewportCache.captureLiveAt
  split
  · exact ⟨c.pages, rfl, rfl, List.subset_append_left _ _⟩
  split
  · exact ⟨c.pages, rfl, rfl, List.subset_append_left _ _⟩
  · rename_i pages hp
    rw [hp]
    have hinsert := pages.insert_windows layout ⟨.exact, anchor, 0, 0, rows⟩ reserved nestedBytes
    dsimp only
    split <;> rename_i hi <;> rw [hi] at hinsert
    · exact ⟨_, rfl, rfl, by simpa using hinsert⟩
    · refine ⟨_, rfl, rfl, ?_⟩
      simpa [Pages.pin_windows] using hinsert

theorem captureLive_step (layout : Layout) (c : ViewportCache Row) (rows : List Row)
    (reserved nestedBytes : Nat) :
    CacheStep layout c (.captureLive rows reserved nestedBytes) none
      (c.captureLive layout rows reserved nestedBytes).2 := by
  unfold ViewportCache.captureLive
  split
  · exact .paged (by trivial) c.pages rfl (List.subset_append_left _ _)
  · rename_i latest hl
    obtain ⟨pages, he, hs, hw⟩ := captureLiveAt_cases layout c latest rows reserved nestedBytes
    rw [he]
    exact .paged (by trivial) pages hs (by simpa [ViewportCache.captured, hl] using hw)

theorem pinVisibleWindow_step (layout : Layout) (c : ViewportCache Row) :
    CacheStep layout c .pinVisible none c.pinVisibleWindow.2 := by
  unfold ViewportCache.pinVisibleWindow
  split
  · rename_i pages latest hp hl
    refine .paged (by trivial) _ (by rw [hp]; rfl) ?_
    simp [hp, Pages.pin_windows, ViewportCache.captured]
  · exact .paged (by trivial) c.pages rfl (List.subset_append_left _ _)

theorem apply_step (layout : Layout) (c : ViewportCache Row) (op : CacheOp Row) :
    CacheStep layout c op (c.issued layout op) (c.apply layout op) := by
  cases op with
  | observe a =>
    refine .observe (observeAnchor_cases c a) ?_
    cases hv : a.isValid with
    | true => exact .inl rfl
    | false => exact .inr (by
        simp [ViewportCache.apply, ViewportCache.observeAnchor,
          ViewportCache.previewAnchorObservation, hv,
          ViewportCache.commitAnchorObservation])
  | setTarget target =>
    rcases setTarget_cases c target with ⟨hl, he⟩ | ⟨latest, hl, hasks⟩
    · simp only [ViewportCache.issued, ViewportCache.apply, he]
      exact .aimless hl
    · exact .aim hl hasks
  | prefetch offset older screens =>
    rcases prefetchToward_cases c offset older screens with he | ⟨latest, hl, hasks⟩
    · simp only [ViewportCache.issued, ViewportCache.apply, he]
      exact .covered
    · exact .prefetch hl hasks
  | install window reserved => exact .respond rfl (installWindow_cases layout c window reserved)
  | installAccounted window reserved nestedBytes =>
    exact .respond rfl (installAccountedWindow_cases layout c window reserved nestedBytes)
  | defer => exact .defer
  | commitVisible =>
    simp only [ViewportCache.issued, ViewportCache.apply, ViewportCache.commitVisiblePresentation]
    split
    · rename_i hv
      exact .unpresentable (by simpa using hv)
    · rename_i hv
      exact .present (by simpa [Option.isSome_iff_ne_none] using hv)
  | captureLive rows reserved nestedBytes => exact captureLive_step ..
  | captureLiveAt anchor rows reserved nestedBytes =>
    obtain ⟨pages, he, hs, hw⟩ := captureLiveAt_cases layout c anchor rows reserved nestedBytes
    simp only [ViewportCache.issued, ViewportCache.apply, he]
    exact .paged (by trivial) pages hs hw
  | pinVisible => exact pinVisibleWindow_step layout c
  | unpin page =>
    refine .paged (by trivial) _ Option.isSome_map ?_
    cases c.pages <;> simp [Pages.unpin_windows]
  | invalidate => exact .invalidate
  | invalidateRows => exact .invalidateRows

/-! ## The request protocol -/

def OpStep (layout : Layout) (allowed : ViewportCache Row → CacheOp Row → Prop)
    (c c' : ViewportCache Row) : Prop :=
  ∃ op, allowed c op ∧ c' = c.apply layout op

abbrev CacheRun (layout : Layout) (allowed : ViewportCache Row → CacheOp Row → Prop) :
    ViewportCache Row → ViewportCache Row → Prop :=
  Relation.ReflTransGen (OpStep layout allowed)

def Permitted (layout : Layout) (allowed : ViewportCache Row → CacheOp Row → Prop) :
    ViewportCache Row → List (CacheOp Row) → Prop
  | _, [] => True
  | c, op :: ops => allowed c op ∧ Permitted layout allowed (c.apply layout op) ops

theorem Permitted.run {allowed : ViewportCache Row → CacheOp Row → Prop}
    (ops : List (CacheOp Row)) (h : Permitted layout allowed c ops) :
    CacheRun layout allowed c (ops.foldl (·.apply layout ·) c) := by
  induction ops generalizing c with
  | nil => exact .refl
  | cons op ops ih => exact .head ⟨op, h.1, rfl⟩ (ih h.2)

def ViewportCache.start : Option ViewportCacheBudget → ViewportCache Row
  | none => .new
  | some budget => .withBudget budget

/-- The operations that end a request: an accepted response, a deferral, an invalidation. -/
def Releases (layout : Layout) (c : ViewportCache Row) (op : CacheOp Row) : Prop :=
  op = .defer ∨ op.Invalidates ∨
    ∃ window install after, c.response layout op = some (window, .ok install, after)

namespace Installed

variable {window : CachedViewportWindow Row}
  {r : Except (CachedViewportWindow Row) ViewportCacheInstall × ViewportCache Row}

theorem shape (h : Installed layout c window r) {install : ViewportCacheInstall}
    (hr : r.1 = .ok install) :
    ∃ query, c.pendingQuery = some query ∧ window.isValidFor query = true := by
  cases h with
  | rejected => cases hr
  | stale hp hv => exact ⟨_, hp, hv⟩
  | dirty hp hv => exact ⟨_, hp, hv⟩
  | placed hp hv => exact ⟨_, hp, hv⟩

theorem unchanged (h : Installed layout c window r) {rejected : CachedViewportWindow Row}
    (hr : r.1 = .error rejected) : r.2 = c := by
  cases h <;> first | rfl | cases hr

theorem request (h : Installed layout c window r) {query : TerminalHistoryWindowQuery}
    (hq : r.1.toOption.bind (·.request) = some query) : r.2.pendingQuery = some query := by
  cases h with
  | rejected => cases hq
  | stale hp hv hl request => exact hq
  | dirty => cases hq
  | placed hp hv hl hr hn hk install => exact hq

end Installed

theorem CachedViewportWindow.shape_of_isValidFor (h : window.isValidFor query = true) :
    query.responseShape window.anchor = some ⟨window.disposition, window.targetOffsetFromBottom,
      window.firstRowFromLiveTop, window.rows.length⟩ := by
  unfold isValidFor at h
  cases hs : query.responseShape window.anchor with
  | none => simp [hs] at h
  | some shape =>
    simp only [hs, Bool.and_eq_true, decide_eq_true_eq] at h
    obtain ⟨-, ⟨⟨hd, ht⟩, hf⟩, hn⟩ := h
    rw [hd, ht, hf, hn]

theorem CacheStep.request_pending {request : Option TerminalHistoryWindowQuery}
    (h : CacheStep layout c op request c') (hq : request = some query) :
    c'.pendingQuery = some query := by
  cases h with
  | aim hl h => cases h with
    | quiet => cases hq
    | asked => exact hq
  | prefetch hl h => cases h with
    | quiet => cases hq
    | asked => exact hq
  | respond hop h => exact h.request hq
  | _ => cases hq

/-- While a request is pending, only its release lets another be issued. -/
theorem CacheStep.pending_kept {request : Option TerminalHistoryWindowQuery}
    (h : CacheStep layout c op request c') (hp : c.pendingQuery = some query)
    (hop : ¬ Releases layout c op) :
    request = none ∧ c'.pendingQuery = some query := by
  cases h with
  | observe h => cases h with
    | invalid hv => exact absurd (.inr (.inl hv)) hop
    | live => exact ⟨rfl, by split <;> exact hp⟩
    | _ => exact ⟨rfl, hp⟩
  | aim _ h | prefetch _ h => cases h with
    | quiet => exact ⟨rfl, hp⟩
    | asked _ hn => exact absurd (hp.symm.trans hn) (by simp)
  | respond hr h =>
    rename_i window r
    obtain ⟨result, after⟩ := r
    cases result with
    | error rejected =>
      obtain rfl : after = c := h.unchanged rfl
      exact ⟨rfl, hp⟩
    | ok install => exact absurd (.inr (.inr ⟨_, _, _, hr⟩)) hop
  | defer => exact absurd (.inl rfl) hop
  | invalidate => exact absurd (.inr (.inl trivial)) hop
  | _ => exact ⟨rfl, hp⟩

/-- Offsets stay inside the known history. -/
def Bounded (c : ViewportCache Row) : Prop :=
  match c.latestAnchor with
  | none => c.desiredOffsetFromBottom = 0
  | some latest => c.desiredOffsetFromBottom ≤ latest.maxOffsetFromBottom

theorem CacheStep.bounded {request : Option TerminalHistoryWindowQuery}
    (h : CacheStep layout c op request c') (hc : Bounded c) : Bounded c' := by
  cases h with
  | observe h => cases h with
    | invalid => rfl
    | first hl => simp_all [Bounded]
    | older => exact hc
    | reset => exact min_le_right _ _
    | grown => exact min_le_right _ _
    | live hl hr he hv hm hd => exact hd.le.trans (Nat.zero_le _)
    | steady hl hr he hv hm => simp only [Bounded, hl] at hc ⊢; exact hc.trans hm
  | @aim target latest _ hl h =>
    have haim : Bounded (c.aim latest (min target latest.maxOffsetFromBottom)) := by
      simp only [Bounded, ViewportCache.aim, hl]
      exact min_le_right _ _
    cases h <;> exact haim
  | prefetch hl h => cases h <;> exact hc
  | respond hop h => cases h with
    | rejected => exact hc
    | stale => exact min_le_right _ _
    | dirty => exact hc
    | placed hp hv hl hr hn hk install =>
      cases hk <;> exact min_le_right _ _
  | invalidate => rfl
  | _ => exact hc

theorem run_bounded {allowed : ViewportCache Row → CacheOp Row → Prop}
    {budget : Option ViewportCacheBudget} (h : CacheRun layout allowed (.start budget) c) :
    Bounded c := by
  refine Preserved.run ?_ h (by cases budget <;> rfl)
  rintro c _ ⟨op, -, rfl⟩ hc
  exact (apply_step layout c op).bounded hc

theorem CacheStep.revision {request : Option TerminalHistoryWindowQuery}
    (h : CacheStep layout c op request c') (hop : ¬ op.Invalidates)
    (hl : c.latestAnchor = some latest) :
    ∃ latest', c'.latestAnchor = some latest' ∧ latest.revision ≤ latest'.revision := by
  have hsame : c'.latestAnchor = c.latestAnchor →
      ∃ latest', c'.latestAnchor = some latest' ∧ latest.revision ≤ latest'.revision :=
    fun h => ⟨latest, h.trans hl, le_rfl⟩
  cases h with
  | observe h => cases h with
    | invalid hv => exact absurd hv hop
    | first hn => exact absurd (hl.symm.trans hn) (by simp)
    | older => exact hsame rfl
    | reset hl' hr | grown hl' hr | steady hl' hr =>
      obtain rfl := Option.some.inj (hl.symm.trans hl')
      exact ⟨_, rfl, hr⟩
    | live hl' hr =>
      obtain rfl := Option.some.inj (hl.symm.trans hl')
      exact ⟨_, rfl, hr.le⟩
  | aim _ h => cases h <;> exact hsame rfl
  | prefetch hl h => cases h <;> exact hsame rfl
  | respond _ h => cases h with
    | rejected => exact hsame rfl
    | stale hp hv hprev => exact ⟨_, rfl, by simp [hprev, hl]⟩
    | dirty => exact hsame rfl
    | @placed _ previous latest' _ kept hp hv hprev hr hn hk install =>
      have hkept : kept.latestAnchor = some latest' := by cases hk <;> rfl
      refine ⟨latest', hkept, ?_⟩
      obtain rfl : previous = latest := by simp [hprev, hl]
      rcases resolveResponse_cases hr with ⟨rfl, -⟩ | ⟨rfl, hlt⟩
      · exact le_rfl
      · exact hlt.le
  | invalidate => exact absurd trivial hop
  | _ => exact hsame rfl

/-- Between issuing a request and its install, deferral or invalidation no other is issued; a
response is accepted only with the shape its query asks for; a rejected one changes nothing; the
desired offset stays within the latest maximum; the latest revision never goes back. -/
theorem history_request_protocol (layout : Layout) (budget : Option ViewportCacheBudget)
    {c : ViewportCache Row} (h : CacheRun layout (fun _ _ => True) (.start budget) c) :
    (∀ op query, c.issued layout op = some query → ∀ c',
      CacheRun layout (fun c op => ¬ Releases layout c op) (c.apply layout op) c' →
        c'.pendingQuery = some query ∧
          ∀ op', ¬ Releases layout c' op' → c'.issued layout op' = none) ∧
    (∀ op window install c', c.response layout op = some (window, .ok install, c') →
      ∃ query, c.pendingQuery = some query ∧ window.isValid = true ∧
        query.responseShape window.anchor = some ⟨window.disposition,
          window.targetOffsetFromBottom, window.firstRowFromLiveTop, window.rows.length⟩) ∧
    (∀ op window rejected c', c.response layout op = some (window, .error rejected, c') →
      c' = c) ∧
    (∀ latest, c.latestAnchor = some latest →
      c.desiredOffsetFromBottom ≤ latest.maxOffsetFromBottom) ∧
    (∀ latest c', c.latestAnchor = some latest →
      CacheRun layout (fun _ op => ¬ op.Invalidates) c c' →
        ∃ latest', c'.latestAnchor = some latest' ∧ latest.revision ≤ latest'.revision) := by
  refine ⟨fun op query hq c' hrun => ?_, fun op window install c' hr => ?_,
    fun op window rejected c' hr => ?_, fun latest hl => ?_, fun latest c' hl hrun => ?_⟩
  · have hissued := (apply_step layout c op).request_pending hq
    have hkept : c'.pendingQuery = some query := by
      refine Preserved.run (P := fun c : ViewportCache Row => c.pendingQuery = some query) ?_ hrun
        hissued
      rintro c _ ⟨op, hop, rfl⟩ hp
      exact ((apply_step layout c op).pending_kept hp hop).2
    exact ⟨hkept, fun op' hop => ((apply_step layout c' op').pending_kept hkept hop).1⟩
  · obtain ⟨query, hp, hv⟩ := (response_installed hr).shape rfl
    refine ⟨query, hp, ?_, CachedViewportWindow.shape_of_isValidFor hv⟩
    exact (Bool.and_eq_true_iff.mp hv).1
  · exact (response_installed hr).unchanged rfl
  · simpa [Bounded, hl] using run_bounded h
  · refine Preserved.run
      (P := fun c : ViewportCache Row => ∃ latest', c.latestAnchor = some latest' ∧
        latest.revision ≤ latest'.revision) ?_ hrun ⟨latest, hl, le_rfl⟩
    rintro c _ ⟨op, hop, rfl⟩ ⟨latest', hl', hle⟩
    obtain ⟨latest'', hl'', hle'⟩ := (apply_step layout c op).revision hop hl'
    exact ⟨latest'', hl'', hle.trans hle'⟩

/-- Four rows of ten columns, with `history` rows above them. -/
def fourRows (revision history : Nat) : TerminalHistoryWindowAnchor :=
  ⟨1, revision, history, ⟨4, 10⟩⟩

/-- Sizes on a 64-bit machine. -/
def wordLayout : Layout := ⟨56, 24, 80, 24, 8⟩

/-- The request for the first target is pending, and no other is issued before its release. -/
theorem history_request_protocol_first :
    ((ViewportCache.new : ViewportCache Nat).apply wordLayout (.observe (fourRows 1 8))).issued
        wordLayout (.setTarget 3) = some ⟨fourRows 1 8, 3, 8, 0⟩ ∧
      (((ViewportCache.new : ViewportCache Nat).apply wordLayout (.observe (fourRows 1 8))).apply
        wordLayout (.setTarget 3)).pendingQuery = some ⟨fourRows 1 8, 3, 8, 0⟩ := by
  have hissued : ((ViewportCache.new : ViewportCache Nat).apply wordLayout
      (.observe (fourRows 1 8))).issued wordLayout (.setTarget 3) =
        some ⟨fourRows 1 8, 3, 8, 0⟩ := by decide
  have hrun : CacheRun wordLayout (fun _ _ => True) (.start none)
      ((ViewportCache.new : ViewportCache Nat).apply wordLayout (.observe (fourRows 1 8))) :=
    .single ⟨.observe (fourRows 1 8), trivial, rfl⟩
  exact ⟨hissued, ((history_request_protocol wordLayout none hrun).1 _ _ hissued _ .refl).1⟩

end Voytty.Core
