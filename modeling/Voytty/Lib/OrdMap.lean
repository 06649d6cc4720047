import Mathlib

/-!
# Ordered maps

`OrdMap κ υ` is the standard library's balanced tree over a linear order. Its
lookup lemmas speak of `compare`; here they speak of equality of keys, and the
first entry of a map is characterised.
-/

namespace Voytty.Lib

variable {κ υ : Type} [LinearOrder κ]

abbrev OrdMap (κ υ : Type) [LinearOrder κ] := Std.TreeMap κ υ

namespace OrdMap

variable {t : OrdMap κ υ} {k a : κ} {v : υ}

theorem get_insert [Decidable (k = a)] : (t.insert k v)[a]? = if k = a then some v else t[a]? := by
  simp [Std.TreeMap.getElem?_insert]

theorem get_erase [Decidable (k = a)] : (t.erase k)[a]? = if k = a then none else t[a]? := by
  simp [Std.TreeMap.getElem?_erase]

theorem get_modify [Decidable (k = a)] {f : υ → υ} :
    (t.modify k f)[a]? = if k = a then t[k]?.map f else t[a]? := by
  simp [Std.TreeMap.getElem?_modify]

theorem mem_keys : k ∈ t.keys ↔ k ∈ t := Std.TreeMap.mem_keys

theorem mem_iff_get : k ∈ t ↔ ∃ v, t[k]? = some v := by
  rw [Std.TreeMap.mem_iff_isSome_getElem?, Option.isSome_iff_exists]

theorem not_mem_iff_get : k ∉ t ↔ t[k]? = none := by
  rw [mem_iff_get, Option.eq_none_iff_forall_ne_some]
  push Not
  rfl

theorem mem_insert : a ∈ t.insert k v ↔ a = k ∨ a ∈ t := by
  rw [Std.TreeMap.mem_insert, compare_eq_iff_eq, eq_comm]

theorem mem_erase : a ∈ t.erase k ↔ a ≠ k ∧ a ∈ t := by
  rw [Std.TreeMap.mem_erase, ne_eq, compare_eq_iff_eq, ne_comm]

theorem mem_toList : (k, v) ∈ t.toList ↔ t[k]? = some v :=
  Std.TreeMap.mem_toList_iff_getElem?_eq_some

theorem get_filter {f : κ → υ → Bool} : (t.filter f)[a]? = t[a]?.filter (f a) := by
  refine Option.ext fun w => ?_
  rw [← mem_toList, Std.TreeMap.toList_filter, List.mem_filter, mem_toList, Option.filter_eq_some_iff]

theorem mem_values : v ∈ t.values ↔ ∃ k : κ, t[k]? = some v := by
  have hfold : t.values = t.foldr (fun _ v l => v :: l) [] := rfl
  have hmap : t.values = t.toList.map (·.2) := by
    rw [hfold, Std.TreeMap.foldr_eq_foldr_toList]
    induction t.toList with
    | nil => rfl
    | cons e es ih => rw [List.foldr_cons, ih, List.map_cons]
  rw [hmap, List.mem_map]
  constructor
  · rintro ⟨⟨k, w⟩, hmem, rfl⟩
    exact ⟨k, mem_toList.mp hmem⟩
  · rintro ⟨k, hget⟩
    exact ⟨(k, v), mem_toList.mpr hget, rfl⟩

theorem nodup_toList : t.toList.Nodup := by
  refine (Std.TreeMap.distinct_keys_toList (t := t)).imp fun h he => h ?_
  subst he
  exact compare_eq_iff_eq.mpr rfl

theorem toList_perm {u : OrdMap κ υ} (h : ∀ a : κ, t[a]? = u[a]?) : t.toList.Perm u.toList := by
  refine (List.perm_ext_iff_of_nodup nodup_toList nodup_toList).mpr fun ⟨a, w⟩ => ?_
  rw [mem_toList, mem_toList, h]

theorem toList_erase_perm (h : t[k]? = some v) :
    t.toList.Perm ((k, v) :: (t.erase k).toList) := by
  have hout : (k, v) ∉ (t.erase k).toList := by
    rw [mem_toList, get_erase, if_pos rfl]
    nofun
  refine (List.perm_ext_iff_of_nodup nodup_toList (nodup_toList.cons hout)).mpr fun ⟨a, w⟩ => ?_
  rw [List.mem_cons, mem_toList, mem_toList, get_erase]
  by_cases ha : k = a
  · subst ha
    rw [h, if_pos rfl]
    simp [eq_comm]
  · rw [if_neg ha]
    simp [Ne.symm ha]

theorem toList_insert_perm (h : t[k]? = none) :
    (t.insert k v).toList.Perm ((k, v) :: t.toList) := by
  refine (toList_erase_perm (by rw [get_insert, if_pos rfl])).trans ((toList_perm fun a => ?_).cons _)
  rw [get_erase, get_insert]
  by_cases ha : k = a
  · rw [if_pos ha, ← ha, h]
  · rw [if_neg ha, if_neg ha]

def first (t : OrdMap κ υ) : Option (κ × υ) := t.toList.head?

theorem first_some (h : first t = some (k, v)) :
    t[k]? = some v ∧ ∀ a w, t[a]? = some w → k ≤ a := by
  have hsorted := Std.TreeMap.ordered_keys_toList (t := t)
  unfold first at h
  cases hl : t.toList with
  | nil => simp [hl] at h
  | cons e es =>
    obtain rfl : e = (k, v) := by simpa [hl] using h
    refine ⟨mem_toList.mp (by simp [hl]), fun a w ha => ?_⟩
    rw [← mem_toList, hl, List.mem_cons] at ha
    rw [hl, List.pairwise_cons] at hsorted
    rcases ha with ha | ha
    · cases ha; exact le_rfl
    · exact le_of_lt (by simpa [compare_lt_iff_lt] using hsorted.1 (a, w) ha)

theorem first_none (h : first t = none) : t.size = 0 := by
  rw [← Std.TreeMap.length_toList, List.length_eq_zero_iff]
  simpa only [first, List.head?_eq_none_iff] using h

theorem size_insert_le : (t.insert k v).size ≤ t.size + 1 := by
  rw [Std.TreeMap.size_insert]
  split <;> omega

theorem size_insert_of_mem {w : υ} (h : t[k]? = some w) : (t.insert k v).size = t.size := by
  rw [Std.TreeMap.size_insert, if_pos]
  simp [Std.TreeMap.contains_eq_isSome_getElem?, h]

theorem size_erase_of_mem (h : t[k]? = some v) : (t.erase k).size + 1 = t.size := by
  have hpos : 0 < t.size := by
    rw [← Std.TreeMap.length_toList]
    exact List.length_pos_of_mem (mem_toList.mpr h)
  rw [Std.TreeMap.size_erase, if_pos (by simp [Std.TreeMap.contains_eq_isSome_getElem?, h])]
  omega

theorem size_filter_lt {f : κ → υ → Bool} (h : t[k]? = some v) (hf : f k v = false) :
    (t.filter f).size < t.size := by
  rw [← Std.TreeMap.length_toList, ← Std.TreeMap.length_toList, Std.TreeMap.toList_filter]
  exact List.length_filter_lt_length_iff_exists.mpr ⟨(k, v), mem_toList.mpr h, by simp [hf]⟩

theorem size_le_of_keys {ω : Type} {u : OrdMap κ ω}
    (h : ∀ (k : κ) (v : υ), t[k]? = some v → ∃ w, u[k]? = some w) : t.size ≤ u.size := by
  rw [← Std.TreeMap.length_keys, ← Std.TreeMap.length_keys]
  refine (List.Nodup.subperm Std.TreeMap.nodup_keys fun k hk => ?_).length_le
  have hmem := Std.TreeMap.mem_keys.mp hk
  obtain ⟨w, hw⟩ := h k _ (Std.TreeMap.getElem?_eq_some_getElem hmem)
  rw [Std.TreeMap.mem_keys, Std.TreeMap.mem_iff_isSome_getElem?, hw]
  rfl

theorem size_add_le_of_keys {ω ρ : Type} {u : OrdMap κ ω} {w : OrdMap κ ρ}
    (ht : ∀ (k : κ) (v : υ), t[k]? = some v → ∃ x, w[k]? = some x)
    (hu : ∀ (k : κ) (v : ω), u[k]? = some v → ∃ x, w[k]? = some x)
    (hd : ∀ (k : κ) (v : υ) (v' : ω), t[k]? = some v → u[k]? ≠ some v') :
    t.size + u.size ≤ w.size := by
  rw [← Std.TreeMap.length_keys, ← Std.TreeMap.length_keys, ← Std.TreeMap.length_keys,
    ← List.length_append]
  have hmem : ∀ {ζ : Type} {m : OrdMap κ ζ} {k : κ}, k ∈ m.keys ↔ ∃ x, m[k]? = some x := by
    intro ζ m k
    rw [Std.TreeMap.mem_keys, Std.TreeMap.mem_iff_isSome_getElem?, Option.isSome_iff_exists]
  refine (List.Nodup.subperm ?_ fun k hk => ?_).length_le
  · refine List.Nodup.append Std.TreeMap.nodup_keys Std.TreeMap.nodup_keys fun k h h' => ?_
    obtain ⟨v, hv⟩ := hmem.mp h
    obtain ⟨v', hv'⟩ := hmem.mp h'
    exact hd k v v' hv hv'
  · rcases List.mem_append.mp hk with h | h
    · obtain ⟨v, hv⟩ := hmem.mp h
      exact hmem.mpr (ht k v hv)
    · obtain ⟨v, hv⟩ := hmem.mp h
      exact hmem.mpr (hu k v hv)

end OrdMap

end Voytty.Lib
