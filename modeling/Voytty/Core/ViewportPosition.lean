import Voytty.Core.ViewportCacheRows

/-!
# The reader's position

A reader who scrolled up looks at an ordinal of the history: the latest maximum
offset minus the desired offset. A response may arrive with a longer history than
the one known, and the desired offset then has to grow with it.
`install_accounted_window` takes the response's own target when the desired offset
has the number the request asked for. That is the same position only if both
numbers count from the same history (`Aligned`).
-/

namespace Voytty.Core

open Voytty.Terminal

variable {Row : Type} {layout : Layout} {c : ViewportCache Row} {window : CachedViewportWindow Row}
  {pending : TerminalHistoryWindowQuery} {latest : TerminalHistoryWindowAnchor}

/-- A desired offset with the number of the pending target counts from the same history. -/
def Aligned (c : ViewportCache Row) (pending : TerminalHistoryWindowQuery)
    (latest : TerminalHistoryWindowAnchor) : Prop :=
  c.desiredOffsetFromBottom = pending.targetOffsetFromBottom →
    pending.anchor.epoch = latest.epoch ∧ pending.anchor.viewport = latest.viewport ∧
      pending.anchor.maxOffsetFromBottom = latest.maxOffsetFromBottom

theorem resolveResponse_newer (he : window.anchor.epoch = latest.epoch)
    (hv : window.anchor.viewport = latest.viewport)
    (hr : latest.revision < window.anchor.revision) (hd : 0 < c.desiredOffsetFromBottom) :
    c.resolveResponse pending window latest = some (window.anchor,
      if c.desiredOffsetFromBottom = pending.targetOffsetFromBottom then
        window.targetOffsetFromBottom
      else saturatingAdd c.desiredOffsetFromBottom
        (window.anchor.maxOffsetFromBottom - latest.maxOffsetFromBottom)) := by
  have hsame : ViewportCache.sameIdentity latest window.anchor = true := by
    simp [ViewportCache.sameIdentity, he, hv]
  have hnot : ¬ window.anchor.revision ≤ latest.revision := by omega
  simp [ViewportCache.resolveResponse, hsame, hnot, hd]

/-- The target of a response is the requested one, moved by what the history has grown. -/
theorem target_of_isValidFor (h : window.isValidFor pending = true)
    (he : pending.anchor.epoch = window.anchor.epoch)
    (hv : pending.anchor.viewport = window.anchor.viewport)
    (hm : pending.anchor.maxOffsetFromBottom ≤ window.anchor.maxOffsetFromBottom) :
    window.targetOffsetFromBottom = min (pending.targetOffsetFromBottom +
        (window.anchor.maxOffsetFromBottom - pending.anchor.maxOffsetFromBottom))
      window.anchor.maxOffsetFromBottom := by
  have hexact : pending.isExact window.anchor = true := by
    simp [TerminalHistoryWindowQuery.isExact, he, hv, hm]
  have hshape := CachedViewportWindow.shape_of_isValidFor h
  unfold TerminalHistoryWindowQuery.responseShape at hshape
  split at hshape
  · cases hshape
  · obtain ⟨target, htarget, hrest⟩ := Option.bind_eq_some_iff.mp hshape
    have hwindow : window.targetOffsetFromBottom = target := by
      obtain ⟨⟨first, stop⟩, -, hrest⟩ := Option.bind_eq_some_iff.mp hrest
      obtain ⟨span, -, hrest⟩ := Option.bind_eq_some_iff.mp hrest
      simp only at hrest
      split at hrest
      · cases hrest
      · exact (congrArg TerminalHistoryWindowResponseShape.targetOffsetFromBottom
          (Option.some.inj hrest)).symm
    simp only [TerminalHistoryWindowQuery.resolvedTarget, hexact, if_true] at htarget
    split at htarget
    · rw [hwindow, ← Option.some.inj htarget]
    · cases htarget

theorem history_of_isValidFor (h : window.isValidFor pending = true) :
    window.anchor.maxOffsetFromBottom < 2 ^ 63 := by
  simp only [CachedViewportWindow.isValidFor, Bool.and_eq_true] at h
  have hvalid := h.1
  unfold CachedViewportWindow.isValid at hvalid
  split at hvalid
  · cases hvalid
  · split at hvalid
    · rename_i stop history _ hhistory
      have := checkedI64_some hhistory
      omega
    · cases hvalid

/-- The offset after a newer response is the offset before, plus what the history has grown. -/
theorem resolveResponse_position {latest' : TerminalHistoryWindowAnchor} {desired : Nat}
    (hvalid : window.isValidFor pending = true) (he : window.anchor.epoch = latest.epoch)
    (hv : window.anchor.viewport = latest.viewport)
    (hr : latest.revision < window.anchor.revision) (hd : 0 < c.desiredOffsetFromBottom)
    (hbound : c.desiredOffsetFromBottom ≤ latest.maxOffsetFromBottom)
    (haligned : Aligned c pending latest)
    (hgrown : latest.maxOffsetFromBottom ≤ window.anchor.maxOffsetFromBottom)
    (h : c.resolveResponse pending window latest = some (latest', desired)) :
    latest' = window.anchor ∧ desired = c.desiredOffsetFromBottom +
      (window.anchor.maxOffsetFromBottom - latest.maxOffsetFromBottom) := by
  rw [resolveResponse_newer he hv hr hd] at h
  obtain ⟨rfl, rfl⟩ := Prod.mk.inj (Option.some.inj h)
  refine ⟨rfl, ?_⟩
  have hhistory := history_of_isValidFor hvalid
  split
  · rename_i htarget
    obtain ⟨hpe, hpv, hpm⟩ := haligned htarget
    rw [target_of_isValidFor hvalid (hpe.trans he.symm) (hpv.trans hv.symm) (by omega), hpm,
      ← htarget]
    exact min_eq_left (by omega)
  · exact min_eq_left (by omega)

/-- Twenty rows of history that grow by two with each revision. -/
def scrollingHost : Host Nat := .numbered fun revision => 18 + 2 * revision

/-- A reader who asked for nine rows above the bottom, while the history grew by two. -/
def askedNineAbove : ViewportCache Nat :=
  [.observe (scrollingHost.anchor 1), .setTarget 9, .observe (scrollingHost.anchor 2)].foldl
    (·.apply wordLayout ·) .new

theorem askedNineAbove_run : CacheRun wordLayout (scrollingHost.Reports wordLayout) .new
    askedNineAbove :=
  Permitted.run _ ⟨.observe 1 rfl, .setTarget 9, .observe 2 rfl, trivial⟩

end Voytty.Core
