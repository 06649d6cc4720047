import Voytty.Core.ViewportCacheSteps

/-!
# The page store over whole runs

`pages.rs` by itself: pages are inserted, touched, pinned, let go and discarded in any
order. `Inserted` lists the outcomes of an insertion; a failed one has evicted every
unpinned page by the time it finds that the pinned ones leave no room. From it: the rows
and bytes held stay within the budget, a pinned page is held on, and a failed insertion
changes nothing where the pinned pages leave room or there is nothing to evict.
-/

namespace Voytty.Core

open Voytty.Terminal

variable {Row : Type}

/-- What is done to a page store; `unpin` is an owner outside letting go. -/
inductive PageOp (Row : Type) where
  | insert (window : CachedViewportWindow Row) (reserved nestedBytes : Nat)
  | touch (latest : TerminalHistoryWindowAnchor) (target : Nat)
  | pin (latest : TerminalHistoryWindowAnchor) (target : Nat)
  | unpin (page : Nat)
  | discardUnpinned

namespace Pages

variable (layout : Layout) (p : Pages Row)

def apply : PageOp Row → Pages Row
  | .insert window reserved nestedBytes => (p.insert layout window reserved nestedBytes).2
  | .touch latest target => p.touch latest target
  | .pin latest target => (p.pin latest target).2
  | .unpin page => p.unpin page
  | .discardUnpinned => p.discardUnpinned

def run (ops : List (PageOp Row)) : Pages Row := ops.foldl (fun p op => p.apply layout op) p

/-- The pages held, without their owners. -/
def held : List (CachedViewportWindow Row × Nat) := p.entries.map fun page => (page.window, page.bytes)

/-- Those of them with an owner outside. -/
def pinned : List (CachedViewportWindow Row × Nat) :=
  (p.entries.filter fun page => page.pins > 0).map fun page => (page.window, page.bytes)

variable {layout p}

/-! ## Usage -/

def rowTotal (entries : List (Page Row)) : Nat := (entries.map (·.window.rows.length)).sum

def byteTotal (entries : List (Page Row)) : Nat := (entries.map (·.bytes)).sum

theorem rowTotal_push (entries : List (Page Row)) (page : Page Row) :
    rowTotal (entries ++ [page]) = rowTotal entries + page.window.rows.length := by
  simp [rowTotal]

theorem byteTotal_push (entries : List (Page Row)) (page : Page Row) :
    byteTotal (entries ++ [page]) = byteTotal entries + page.bytes := by
  simp [byteTotal]

variable {entries : List (Page Row)} {q : Pages Row}

theorem foldl_usage (h : entries ≠ []) (total : ViewportCacheBudget) :
    entries.foldl (fun total page =>
        ⟨saturatingAdd total.rows page.window.rows.length, saturatingAdd total.bytes page.bytes⟩)
      total =
    ⟨min (total.rows + rowTotal entries) (2 ^ 64 - 1),
      min (total.bytes + byteTotal entries) (2 ^ 64 - 1)⟩ := by
  induction entries generalizing total with
  | nil => exact absurd rfl h
  | cons page entries ih =>
    rw [List.foldl_cons]
    cases entries with
    | nil => simp [rowTotal, byteTotal, saturatingAdd]
    | cons next entries =>
      rw [ih (List.cons_ne_nil _ _)]
      simp only [rowTotal, byteTotal, List.map_cons, List.sum_cons, saturatingAdd,
        ViewportCacheBudget.mk.injEq]
      exact ⟨by omega, by omega⟩

theorem usage_eq (h : p.entries ≠ []) : p.usage layout =
    ⟨min (rowTotal p.entries) (2 ^ 64 - 1),
      min (layout.pages + p.capacity * layout.page + byteTotal p.entries) (2 ^ 64 - 1)⟩ := by
  rw [usage, foldl_usage h, Nat.zero_add]

theorem usage_clamped (layout : Layout) (p : Pages Row) :
    min (p.usage layout).rows (2 ^ 64 - 1) = min (rowTotal p.entries) (2 ^ 64 - 1) ∧
      min (p.usage layout).bytes (2 ^ 64 - 1) =
        min (layout.pages + p.capacity * layout.page + byteTotal p.entries) (2 ^ 64 - 1) := by
  by_cases h : p.entries = []
  · simp [usage, h, rowTotal, byteTotal]
  · rw [usage_eq h]
    simp

/-- Within the budget: what is reserved is what is held, and the accounted sums fit. -/
structure Within (layout : Layout) (p : Pages Row) : Prop where
  exact : p.capacity = p.entries.length
  rows : min (rowTotal p.entries) (2 ^ 64 - 1) ≤ p.budget.rows
  bytes : p.entries ≠ [] →
    min (layout.pages + p.entries.length * layout.page + byteTotal p.entries) (2 ^ 64 - 1) ≤
      p.budget.bytes

theorem Within.new (layout : Layout) (budget : ViewportCacheBudget) :
    (new budget : Pages Row).Within layout :=
  ⟨rfl, by simp [Pages.new, rowTotal], by simp [Pages.new]⟩

theorem Within.usage_rows (h : p.Within layout) : (p.usage layout).rows ≤ p.budget.rows := by
  by_cases he : p.entries = []
  · simp [usage, he]
  · rw [usage_eq he]
    exact h.rows

theorem Within.usage_bytes (h : p.Within layout) (he : p.entries ≠ []) :
    (p.usage layout).bytes ≤ p.budget.bytes := by
  rw [usage_eq he, h.exact]
  exact h.bytes he

theorem totals_le {entries' : List (Page Row)} (h : entries'.Subperm entries) :
    rowTotal entries' ≤ rowTotal entries ∧ byteTotal entries' ≤ byteTotal entries ∧
      entries'.length ≤ entries.length := by
  obtain ⟨kept, hperm, hsub⟩ := h
  refine ⟨?_, ?_, ?_⟩
  · rw [rowTotal, ← (hperm.map _).sum_eq]
    exact (hsub.map _).sum_le_sum fun _ _ => Nat.zero_le _
  · rw [byteTotal, ← (hperm.map _).sum_eq]
    exact (hsub.map _).sum_le_sum fun _ _ => Nat.zero_le _
  · rw [← hperm.length_eq]
    exact hsub.length_le

theorem Within.fewer (h : p.Within layout) (hb : q.budget = p.budget)
    (hexact : q.capacity = q.entries.length) (hsub : q.entries.Subperm p.entries) :
    q.Within layout := by
  obtain ⟨hrows, hbytes, hlength⟩ := totals_le hsub
  refine ⟨hexact, ?_, fun hne => ?_⟩
  · have := h.rows
    rw [hb]
    omega
  · have hne' : p.entries ≠ [] := by
      intro hnil
      rw [hnil, List.subperm_nil] at hsub
      exact hne hsub
    have := h.bytes hne'
    have := Nat.mul_le_mul_right layout.page hlength
    rw [hb]
    omega

theorem Within.push (hexact : q.capacity = q.entries.length) {page : Page Row}
    (hroom : q.hasRoom layout page.window.rows.length page.bytes = true) :
    Within layout { q with
      entries := q.entries ++ [page]
      capacity := max q.capacity (q.entries.length + 1) } := by
  obtain ⟨hrows, hbytes⟩ := usage_clamped layout q
  simp only [hasRoom, hexact, ↓reduceIte, saturatingAdd, Bool.and_eq_true] at hroom
  have hfitRows := of_decide_eq_true hroom.1
  have hfitBytes := of_decide_eq_true hroom.2
  rw [hexact] at hbytes
  refine ⟨?_, ?_, fun _ => ?_⟩
  · simp [hexact]
  · rw [rowTotal_push]
    dsimp only
    omega
  · rw [byteTotal_push, List.length_append, List.length_singleton, Nat.add_mul, Nat.one_mul]
    dsimp only
    omega

/-! ## Insertions -/

theorem pinned_eraseIdx {i : Nat} (h : entries.findIdx? (fun page => page.pins == 0) = some i) :
    (entries.eraseIdx i).filter (fun page => page.pins > 0) =
      entries.filter fun page => page.pins > 0 := by
  induction entries generalizing i with
  | nil => cases h
  | cons page entries ih =>
    rw [List.findIdx?_cons] at h
    split at h
    · rename_i hfree
      obtain rfl := Option.some.inj h
      have hnot : ¬page.pins > 0 := by
        have := beq_iff_eq.mp hfree
        omega
      simp [hnot]
    · obtain ⟨j, hj, rfl⟩ := Option.map_eq_some_iff.mp h
      simp only [List.eraseIdx_cons_succ, List.filter_cons, ih hj]

theorem filter_pinned_of_findIdx?_none (h : entries.findIdx? (fun page => page.pins == 0) = none) :
    entries.filter (fun page => page.pins > 0) = entries := by
  rw [List.filter_eq_self]
  intro page hpage
  have := List.findIdx?_eq_none_iff.mp h page hpage
  simp only [beq_eq_false_iff_ne] at this
  simp only [decide_eq_true_eq]
  omega

theorem discardUnpinned_eq_self (hexact : p.capacity = p.entries.length)
    (h : p.entries.filter (fun page => page.pins > 0) = p.entries) : p.discardUnpinned = p := by
  unfold discardUnpinned
  dsimp only
  rw [h, ← hexact]

/-- The loop of an insertion: pages evicted one by one until there is room, or until only pinned
pages are left. -/
theorem makeRoom_cases (layout : Layout) (rows bytes fuel : Nat) (p : Pages Row)
    (hexact : p.capacity = p.entries.length) (hfuel : p.entries.length ≤ fuel) :
    (∃ q : Pages Row, makeRoom layout rows bytes fuel p = (true, q) ∧ q.budget = p.budget ∧
      q.capacity = q.entries.length ∧ q.entries.Sublist p.entries ∧
      q.discardUnpinned = p.discardUnpinned ∧ q.hasRoom layout rows bytes = true) ∨
    (makeRoom layout rows bytes fuel p = (false, p.discardUnpinned) ∧
      p.discardUnpinned.hasRoom layout rows bytes = false) := by
  induction fuel generalizing p with
  | zero =>
    have hnil : p.entries = [] := List.length_eq_zero_iff.mp (Nat.le_zero.mp hfuel)
    unfold makeRoom
    split
    · rename_i hroom
      exact .inl ⟨p, rfl, rfl, hexact, .refl _, rfl, hroom⟩
    · rename_i hroom
      rw [hnil]
      rw [Bool.not_eq_true, ← discardUnpinned_eq_self hexact (by simp [hnil])] at hroom
      exact .inr ⟨by rw [discardUnpinned_eq_self hexact (by simp [hnil])]; rfl, hroom⟩
  | succ fuel ih =>
    unfold makeRoom
    split
    · rename_i hroom
      exact .inl ⟨p, rfl, rfl, hexact, .refl _, rfl, hroom⟩
    rename_i hroom
    cases hfind : p.entries.findIdx? fun page => page.pins == 0 with
    | none =>
      have hself := discardUnpinned_eq_self hexact (filter_pinned_of_findIdx?_none hfind)
      rw [Bool.not_eq_true, ← hself] at hroom
      exact .inr ⟨by rw [hself], hroom⟩
    | some i =>
      dsimp only
      let evicted : Pages Row := { p with
        entries := p.entries.eraseIdx i
        capacity := (p.entries.eraseIdx i).length }
      have hkept : evicted.discardUnpinned = p.discardUnpinned := by
        simp only [evicted, discardUnpinned, pinned_eraseIdx hfind]
      have hshort : (p.entries.eraseIdx i).length ≤ fuel := by
        have hi := (List.findIdx?_eq_some_iff_findIdx_eq.mp hfind).1
        rw [List.length_eraseIdx_of_lt hi]
        omega
      rcases ih evicted rfl hshort with ⟨q, hq, hb, hc, hsub, hd, hroom'⟩ | ⟨hq, hroom'⟩
      · exact .inl ⟨q, hq, hb, hc, hsub.trans (List.eraseIdx_sublist ..), hd.trans hkept, hroom'⟩
      · rw [hkept] at hq hroom'
        exact .inr ⟨hq, hroom'⟩

def windowBytes (layout : Layout) (reserved nestedBytes : Nat) : Nat :=
  saturatingAdd (saturatingAdd (saturatingAdd layout.window (2 * layout.word))
    (min (reserved * layout.row) (2 ^ 64 - 1))) nestedBytes

/-- A window that no eviction makes room for. -/
def Oversized (layout : Layout) (p : Pages Row) (window : CachedViewportWindow Row)
    (reserved nestedBytes : Nat) : Prop :=
  window.rows.length > p.budget.rows ∨
    saturatingAdd (windowBytes layout reserved nestedBytes) layout.page > p.budget.bytes

inductive Inserted (layout : Layout) (p : Pages Row) (window : CachedViewportWindow Row)
    (reserved nestedBytes : Nat) : Bool × Pages Row → Prop where
  | oversized (h : Oversized layout p window reserved nestedBytes) :
      Inserted layout p window reserved nestedBytes (false, p)
  | full (h : p.discardUnpinned.hasRoom layout window.rows.length
        (windowBytes layout reserved nestedBytes) = false) :
      Inserted layout p window reserved nestedBytes (false, p.discardUnpinned)
  | kept (q : Pages Row) (hb : q.budget = p.budget) (hc : q.capacity = q.entries.length)
      (hsub : q.entries.Sublist p.entries) (hd : q.discardUnpinned = p.discardUnpinned)
      (hroom : q.hasRoom layout window.rows.length
        (windowBytes layout reserved nestedBytes) = true) :
      Inserted layout p window reserved nestedBytes (true, { q with
        entries := q.entries ++ [⟨window, windowBytes layout reserved nestedBytes, 0⟩]
        capacity := max q.capacity (q.entries.length + 1) })

theorem insert_cases (layout : Layout) (window : CachedViewportWindow Row)
    (reserved nestedBytes : Nat) (hexact : p.capacity = p.entries.length) :
    Inserted layout p window reserved nestedBytes
      (p.insert layout window reserved nestedBytes) := by
  have hbytes : windowBytes layout reserved nestedBytes =
    saturatingAdd (saturatingAdd (saturatingAdd layout.window (2 * layout.word))
      (min (reserved * layout.row) (2 ^ 64 - 1))) nestedBytes := rfl
  unfold insert
  dsimp only
  rw [← hbytes]
  split
  · rename_i hover
    exact .oversized hover
  · rcases makeRoom_cases layout window.rows.length (windowBytes layout reserved nestedBytes)
      p.entries.length p hexact le_rfl with ⟨q, hq, hb, hc, hsub, hd, hroom⟩ | ⟨hq, hroom⟩
    · rw [hq]
      exact .kept q hb hc hsub hd hroom
    · rw [hq]
      exact .full hroom

/-! ## Runs -/

theorem discardUnpinned_sublist (p : Pages Row) :
    p.discardUnpinned.entries.Sublist p.entries := List.filter_sublist

theorem touch_perm (p : Pages Row) (latest : TerminalHistoryWindowAnchor) (target : Nat) :
    (p.touch latest target).entries.Perm p.entries ∧
      (p.touch latest target).budget = p.budget ∧
      (p.touch latest target).capacity = p.capacity := by
  unfold touch
  split
  · exact ⟨.refl _, rfl, rfl⟩
  · rename_i i _
    refine ⟨?_, rfl, rfl⟩
    dsimp only
    cases hi : p.entries[i]? with
    | none =>
      rw [List.eraseIdx_of_length_le (List.getElem?_eq_none_iff.mp hi)]
      simp
    | some page =>
      obtain ⟨hlt, rfl⟩ := List.getElem?_eq_some_iff.mp hi
      exact (List.perm_append_singleton _ _).trans (List.getElem_cons_eraseIdx_perm hlt)

theorem Within.congr (h : p.Within layout) (hb : q.budget = p.budget) (hc : q.capacity = p.capacity)
    (hheld : q.held = p.held) : q.Within layout := by
  have hlength : q.entries.length = p.entries.length := by
    simpa [held] using congrArg List.length hheld
  have hrows : rowTotal q.entries = rowTotal p.entries := by
    have := congrArg (fun held => (held.map (·.1.rows.length)).sum) hheld
    simpa [held, rowTotal, List.map_map, Function.comp_def] using this
  have hbytes : byteTotal q.entries = byteTotal p.entries := by
    have := congrArg (fun held => (held.map (·.2)).sum) hheld
    simpa [held, byteTotal, List.map_map, Function.comp_def] using this
  refine ⟨by rw [hc, hlength, h.exact], by rw [hrows, hb]; exact h.rows, fun hne => ?_⟩
  have hne' : p.entries ≠ [] := by
    rwa [← List.length_pos_iff, ← hlength, List.length_pos_iff]
  rw [hlength, hbytes, hb]
  exact h.bytes hne'

theorem held_modify (entries : List (Page Row)) (i : Nat) (f : Nat → Nat) :
    (entries.modify i fun page => { page with pins := f page.pins }).map
        (fun page => (page.window, page.bytes)) =
      entries.map fun page => (page.window, page.bytes) := by
  refine List.ext_getElem? fun j => ?_
  simp only [List.getElem?_map, List.getElem?_modify]
  split
  · cases entries[j]? <;> rfl
  · simp

theorem pin_held (p : Pages Row) (latest : TerminalHistoryWindowAnchor) (target : Nat) :
    (p.pin latest target).2.held = p.held ∧ (p.pin latest target).2.budget = p.budget ∧
      (p.pin latest target).2.capacity = p.capacity := by
  unfold pin
  split
  · exact ⟨rfl, rfl, rfl⟩
  · exact ⟨held_modify p.entries _ (· + 1), rfl, rfl⟩

theorem unpin_held (p : Pages Row) (i : Nat) : (p.unpin i).held = p.held :=
  held_modify p.entries i (· - 1)

theorem Within.apply (h : p.Within layout) (op : PageOp Row) :
    (p.apply layout op).Within layout ∧ (p.apply layout op).budget = p.budget := by
  have hdiscard : p.discardUnpinned.Within layout :=
    h.fewer rfl rfl p.discardUnpinned_sublist.subperm
  cases op with
  | insert window reserved nestedBytes =>
    have hcases := insert_cases layout window reserved nestedBytes h.exact
    dsimp only [Pages.apply]
    generalize p.insert layout window reserved nestedBytes = outcome at hcases
    cases hcases with
    | oversized => exact ⟨h, rfl⟩
    | full => exact ⟨hdiscard, rfl⟩
    | kept q hb hc hsub hd hroom => exact ⟨.push hc hroom, hb⟩
  | touch latest target =>
    obtain ⟨hperm, hb, hc⟩ := p.touch_perm latest target
    refine ⟨h.fewer hb ?_ hperm.subperm, hb⟩
    rw [Pages.apply, hc, hperm.length_eq, h.exact]
  | pin latest target =>
    obtain ⟨hheld, hb, hc⟩ := p.pin_held latest target
    exact ⟨h.congr hb hc hheld, hb⟩
  | unpin page => exact ⟨h.congr rfl rfl (p.unpin_held page), rfl⟩
  | discardUnpinned => exact ⟨hdiscard, rfl⟩

theorem Within.run (h : p.Within layout) (ops : List (PageOp Row)) :
    (p.run layout ops).Within layout ∧ (p.run layout ops).budget = p.budget := by
  induction ops generalizing p with
  | nil => exact ⟨h, rfl⟩
  | cons op ops ih =>
    obtain ⟨hstep, hb⟩ := h.apply op
    obtain ⟨hrun, hb'⟩ := ih hstep
    exact ⟨hrun, hb'.trans hb⟩

/-- No operation evicts a pinned page. -/
theorem pinned_apply (hexact : p.capacity = p.entries.length) (op : PageOp Row) :
    p.pinned.Subperm (p.apply layout op).held := by
  have hself : p.pinned.Sublist p.held := p.discardUnpinned_sublist.map _
  have hdiscard : p.pinned = p.discardUnpinned.held := rfl
  cases op with
  | insert window reserved nestedBytes =>
    have hcases := insert_cases layout window reserved nestedBytes hexact
    dsimp only [apply]
    generalize p.insert layout window reserved nestedBytes = outcome at hcases
    cases hcases with
    | oversized => exact hself.subperm
    | full => exact hdiscard ▸ .refl _
    | kept q hb hc hsub hd hroom =>
      rw [hdiscard, ← hd]
      have hq : q.discardUnpinned.held.Sublist q.held := q.discardUnpinned_sublist.map _
      refine (hq.trans ?_).subperm
      unfold held
      rw [List.map_append]
      exact List.sublist_append_left _ _
  | touch latest target =>
    have hperm := ((p.touch_perm latest target).1.map fun page => (page.window, page.bytes)).symm
    exact hself.subperm.trans hperm.subperm
  | pin latest target => exact ((p.pin_held latest target).1 ▸ hself).subperm
  | unpin page => exact (p.unpin_held page ▸ hself).subperm
  | discardUnpinned => exact hdiscard ▸ .refl _

/-- The pinned pages and the window are within the budget together. -/
def PinsLeaveRoom (layout : Layout) (p : Pages Row) (window : CachedViewportWindow Row)
    (reserved nestedBytes : Nat) : Prop :=
  rowTotal (p.entries.filter fun page => page.pins > 0) + window.rows.length ≤ p.budget.rows ∧
    layout.pages + ((p.entries.filter fun page => page.pins > 0).length + 1) * layout.page +
      byteTotal (p.entries.filter fun page => page.pins > 0) +
      windowBytes layout reserved nestedBytes ≤ p.budget.bytes

theorem PinsLeaveRoom.hasRoom {window : CachedViewportWindow Row} {reserved nestedBytes : Nat}
    (h : p.PinsLeaveRoom layout window reserved nestedBytes) :
    p.discardUnpinned.hasRoom layout window.rows.length
      (windowBytes layout reserved nestedBytes) = true := by
  obtain ⟨hrows, hbytes⟩ := usage_clamped layout p.discardUnpinned
  obtain ⟨hfitRows, hfitBytes⟩ := h
  have hlength : p.discardUnpinned.entries.length = p.discardUnpinned.capacity := rfl
  rw [Nat.add_mul, Nat.one_mul] at hfitBytes
  unfold Pages.hasRoom
  dsimp only
  rw [if_pos hlength, Bool.and_eq_true]
  unfold saturatingAdd
  refine ⟨decide_eq_true ?_, decide_eq_true ?_⟩
  · dsimp only [discardUnpinned] at hrows ⊢
    omega
  · dsimp only [discardUnpinned] at hbytes ⊢
    omega

/-- An insertion that, if it fails, has evicted nothing: there is nothing to evict, or the window
alone is over the budget, or the pinned pages leave room for it. -/
def Spares (layout : Layout) (p : Pages Row) (window : CachedViewportWindow Row)
    (reserved nestedBytes : Nat) : Prop :=
  (∀ page ∈ p.entries, page.pins > 0) ∨ Oversized layout p window reserved nestedBytes ∨
    p.PinsLeaveRoom layout window reserved nestedBytes

theorem insert_failed {window : CachedViewportWindow Row} {reserved nestedBytes : Nat}
    (hexact : p.capacity = p.entries.length)
    (hfailed : (p.insert layout window reserved nestedBytes).1 = false)
    (h : Spares layout p window reserved nestedBytes) :
    (p.insert layout window reserved nestedBytes).2 = p := by
  rcases h with hpinned | hover | hroom
  · have hself : p.discardUnpinned = p := by
      refine discardUnpinned_eq_self hexact (List.filter_eq_self.mpr fun page hpage => ?_)
      exact decide_eq_true (hpinned page hpage)
    have hcases := insert_cases layout window reserved nestedBytes hexact
    generalize p.insert layout window reserved nestedBytes = outcome at hcases hfailed
    cases hcases with
    | oversized => rfl
    | full => exact hself
    | kept => cases hfailed
  · unfold Oversized windowBytes at hover
    unfold insert
    dsimp only
    rw [if_pos hover]
  · have hcases := insert_cases layout window reserved nestedBytes hexact
    generalize p.insert layout window reserved nestedBytes = outcome at hcases hfailed
    cases hcases with
    | oversized => rfl
    | full hfull =>
      rw [hroom.hasRoom] at hfull
      cases hfull
    | kept => cases hfailed

end Pages

def pageAt (target rows : Nat) : CachedViewportWindow Nat :=
  ⟨.exact, fourRows 1 100, target, -target - 4, List.replicate rows 0⟩

def pinnedPage : Pages Nat :=
  (Pages.new ⟨12, 10000⟩).run wordLayout
    [.insert (pageAt 12 12) 12 0, .pin (fourRows 1 100) 12]

end Voytty.Core
