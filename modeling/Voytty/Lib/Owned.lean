import Voytty.Lib.OrdMap

/-!
# Maps with owned entries

Every value of a map carries its owner. `Share` says that an owner has at most
the one entry named; `Unchanged` that two maps agree on what an owner has. A
write at a key nobody else owns changes nobody else's share. The last section is
about lists whose elements are removed by a test that implies their owner.
-/

namespace Voytty.Lib

variable {κ υ τ : Type} [LinearOrder κ] {own : υ → τ} {m m' m'' : OrdMap κ υ} {k l : τ} {a b : κ}
  {v w : υ}

/-- `k` owns the entry `o` of the map and no other. -/
def Share (own : υ → τ) (k : τ) (m : OrdMap κ υ) (o : Option (κ × υ)) : Prop :=
  ∀ (a : κ) (v : υ), m[a]? = some v ∧ own v = k ↔ o = some (a, v)

/-- The two maps hold the same entries of `k`. -/
def Unchanged (own : υ → τ) (k : τ) (m m' : OrdMap κ υ) : Prop :=
  ∀ (a : κ) (v : υ), own v = k → (m[a]? = some v ↔ m'[a]? = some v)

namespace Unchanged

theorem refl : Unchanged own k m m := fun _ _ _ => Iff.rfl

theorem trans (h : Unchanged own k m m') (h' : Unchanged own k m' m'') : Unchanged own k m m'' :=
  fun a v hv => (h a v hv).trans (h' a v hv)

theorem insert (ha : ∀ w, m[a]? = some w → own w ≠ k) (hv : own v ≠ k) :
    Unchanged own k m (m.insert a v) := by
  intro b w hw
  rw [OrdMap.get_insert]
  split
  · rename_i hab
    subst hab
    exact ⟨fun h => absurd hw (ha w h), fun h => by cases h; exact absurd hw hv⟩
  · rfl

theorem erase (ha : ∀ w, m[a]? = some w → own w ≠ k) : Unchanged own k m (m.erase a) := by
  intro b w hw
  rw [OrdMap.get_erase]
  split
  · rename_i hab
    subst hab
    exact ⟨fun h => absurd hw (ha w h), nofun⟩
  · rfl

end Unchanged

namespace Share

theorem get (h : Share own k m (some (a, v))) : m[a]? = some v := ((h a v).mpr rfl).1

theorem owner (h : Share own k m (some (a, v))) : own v = k := ((h a v).mpr rfl).2

theorem eq_of_get {o : Option (κ × υ)} (h : Share own k m o) (hg : m[a]? = some v)
    (hv : own v = k) : o = some (a, v) := (h a v).mp ⟨hg, hv⟩

theorem none_iff : Share own k m none ↔ ∀ (a : κ) (v : υ), m[a]? = some v → own v ≠ k := by
  constructor
  · intro h a v hg hv
    cases h.eq_of_get hg hv
  · intro h a v
    exact ⟨fun ⟨hg, hv⟩ => absurd hv (h a v hg), nofun⟩

theorem congr {o : Option (κ × υ)} (h : Share own k m o) (hu : Unchanged own k m m') :
    Share own k m' o := by
  intro a v
  rw [← h a v]
  exact ⟨fun ⟨hg, hv⟩ => ⟨(hu a v hv).mpr hg, hv⟩, fun ⟨hg, hv⟩ => ⟨(hu a v hv).mp hg, hv⟩⟩

theorem of_insert (h : ∀ (b : κ) (w : υ), b ≠ a → m[b]? = some w → own w ≠ k) (hv : own v = k) :
    Share own k (m.insert a v) (some (a, v)) := by
  intro b w
  rw [OrdMap.get_insert]
  split
  · rename_i hab
    subst hab
    constructor
    · rintro ⟨hw, -⟩; cases hw; rfl
    · intro hw; cases hw; exact ⟨rfl, hv⟩
  · rename_i hab
    constructor
    · rintro ⟨hg, hw⟩; exact absurd hw (h b w (Ne.symm hab) hg)
    · intro hw; cases hw; exact absurd rfl hab

theorem insert (h : Share own k m none) (hv : own v = k) :
    Share own k (m.insert a v) (some (a, v)) :=
  of_insert (fun b w _ => none_iff.mp h b w) hv

theorem erase (h : Share own k m (some (a, v))) : Share own k (m.erase a) none := by
  refine none_iff.mpr fun b w hg hw => ?_
  rw [OrdMap.get_erase] at hg
  split at hg
  · cases hg
  · rename_i hab
    cases h.eq_of_get hg hw
    exact absurd rfl hab

theorem replace (h : Share own k m (some (a, v))) (hw : own w = k) :
    Share own k (m.insert a w) (some (a, w)) :=
  of_insert (fun b x hb hg hx => by cases h.eq_of_get hg hx; exact hb rfl) hw

theorem other (h : Share own l m (some (a, v))) (hkl : k ≠ l) :
    ∀ w, m[a]? = some w → own w ≠ k := by
  intro w hw
  rw [h.get] at hw
  cases hw
  rw [h.owner]
  exact hkl.symm

end Share

/-! ## Lists with owned entries -/

section Lists

variable {α : Type} {p q : α → Bool} {xs : List α}

theorem filter_eraseP_of_not (h : ∀ x ∈ xs, p x → ¬ q x) :
    (xs.eraseP p).filter q = xs.filter q := by
  induction xs with
  | nil => rfl
  | cons x xs ih =>
    by_cases hp : p x = true
    · rw [List.eraseP_cons_of_pos hp, List.filter_cons_of_neg (h x List.mem_cons_self hp)]
    · rw [List.eraseP_cons_of_neg hp, List.filter_cons, List.filter_cons,
        ih fun y hy => h y (List.mem_cons_of_mem x hy)]

theorem filter_eraseP_of_imp (h : ∀ x ∈ xs, p x → q x) :
    (xs.eraseP p).filter q = (xs.filter q).eraseP p := by
  induction xs with
  | nil => rfl
  | cons x xs ih =>
    have ih := ih fun y hy => h y (List.mem_cons_of_mem x hy)
    by_cases hp : p x = true
    · rw [List.eraseP_cons_of_pos hp, List.filter_cons_of_pos (h x List.mem_cons_self hp),
        List.eraseP_cons_of_pos hp]
    · rw [List.eraseP_cons_of_neg hp, List.filter_cons, List.filter_cons, ih]
      split
      · rw [List.eraseP_cons_of_neg hp]
      · rfl

end Lists

end Voytty.Lib
