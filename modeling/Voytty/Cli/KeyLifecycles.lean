import Voytty.Cli.HostInputStreams

/-!
# Whole key lifecycles

Where releases are reported, a key is pressed, repeats and is released, with
other keys in between. The command mode decides at the press who gets the key:
it owns the keys it consumes until they are released, and what it does not own
goes to the child.
-/

namespace Voytty.Cli

/-- A key report, or the end of an awaited command: its time is over or other input came. -/
inductive KeyEvent where
  | key (report : EnhancedKey)
  | cancel

namespace CommandMode

def keyEvent (m : CommandMode) : KeyEvent → Except DaemonError CommandMode
  | .key report => return (← m.key (.enhanced report) true).2
  | .cancel => .ok { m with pending := false }

def keyEvents (m : CommandMode) (events : List KeyEvent) : Except DaemonError CommandMode :=
  events.foldlM keyEvent m

/-- Owned keys are distinct and bounded. -/
structure Owns (m : CommandMode) : Prop where
  nodup : m.ownedKeys.Nodup
  bounded : m.ownedKeys.length ≤ heldCommandKeys

variable {m m' : CommandMode} {k : EnhancedKey} {r : KeyRoute}

theorem swapRemove_perm {keys : List KeyIdentity} {index : Nat} (h : index < keys.length) :
    (swapRemove keys index).Perm (keys.eraseIdx index) := by
  obtain ⟨init, last, rfl⟩ := List.eq_nil_or_concat' keys |>.resolve_left (by rintro rfl; simp at h)
  simp only [swapRemove, List.getLast?_concat]
  rw [List.length_append, List.length_singleton] at h
  by_cases hi : index < init.length
  · rw [List.set_append_left _ _ hi, List.dropLast_concat, List.eraseIdx_append_of_lt_length hi]
    exact (List.set_perm_cons_eraseIdx hi last).trans (List.perm_append_singleton _ _).symm
  · obtain rfl : index = init.length := by omega
    simp [List.eraseIdx_append_of_length_le]

theorem owned_removed {index : Nat} (hn : m.ownedKeys.Nodup)
    (h : m.ownedKeys.findIdx? (· = k.identity) = some index) :
    (swapRemove m.ownedKeys index).Perm (m.ownedKeys.erase k.identity) := by
  obtain ⟨hlt, hget, -⟩ := List.findIdx?_eq_some_iff_getElem.mp h
  rw [← of_decide_eq_true hget, hn.erase_getElem]
  exact swapRemove_perm hlt

theorem own_spec (h : m.own (.enhanced k) true = .ok m') :
    m' = { m with ownedKeys := m.ownedKeys ++ [k.identity] } ∧
      m.ownedKeys.length ≠ heldCommandKeys := by
  simp only [own, KeyInput.identity, Bool.not_true, Bool.false_eq_true, ↓reduceIte] at h
  split at h
  · cases h
  · exact ⟨(Except.ok.inj h).symm, ‹_›⟩

/-- A press that reaches the command mode is forwarded, or consumed and owned: an awaited command's
key is consumed unless it is the prefix again, and without one the prefix alone is. -/
theorem freshKey_spec (h : m.freshKey (.enhanced k) true = .ok (r, m')) :
    (r = .forward ↔ m.pending = k.matchesShortcut commandPrefixKey) ∧
    m'.ownedKeys = m.ownedKeys ++ (if r = .forward then [] else [k.identity]) ∧
    (r ≠ .forward → m.ownedKeys.length ≠ heldCommandKeys) := by
  unfold freshKey at h
  cases hp : m.pending <;> cases hk : k.matchesShortcut commandPrefixKey <;>
    simp only [hp, hk, KeyInput.matchesShortcut, Bool.false_eq_true, ↓reduceIte] at h
  · obtain ⟨rfl, rfl⟩ := Prod.mk.inj (Except.ok.inj h)
    simp
  · obtain ⟨m1, hown, h⟩ := bind_ok.mp h
    obtain ⟨rfl, hroom⟩ := own_spec hown
    obtain ⟨rfl, rfl⟩ := Prod.mk.inj (Except.ok.inj h)
    simpa using hroom
  · obtain ⟨m1, hown, h⟩ := bind_ok.mp h
    obtain ⟨rfl, hroom⟩ := own_spec hown
    obtain ⟨rfl, rfl⟩ := Prod.mk.inj (Except.ok.inj h)
    generalize bindings.find? _ = found
    cases found <;> simpa using hroom
  · obtain ⟨rfl, rfl⟩ := Prod.mk.inj (Except.ok.inj h)
    simp

/-- What one report does: its key is owned after a press that was not forwarded and until its
release, other keys stay as they are, and reports after the press go where it went. -/
structure Routes (m : CommandMode) (k : EnhancedKey) (r : KeyRoute) (m' : CommandMode) : Prop where
  owns : m'.Owns
  others : ∀ id, id ≠ k.identity → (id ∈ m'.ownedKeys ↔ id ∈ m.ownedKeys)
  press : k.kind = .press → (k.identity ∈ m'.ownedKeys ↔ r ≠ .forward) ∧
    (r = .forward ↔ k.isModifier = true ∨ m.pending = k.matchesShortcut commandPrefixKey)
  later : k.kind ≠ .press → (r = .forward ↔ k.identity ∉ m.ownedKeys)
  repeats : k.kind = .repeat → (k.identity ∈ m'.ownedKeys ↔ k.identity ∈ m.ownedKeys)
  release : k.kind = .release → k.identity ∉ m'.ownedKeys

theorem Owns.removed {keys : List KeyIdentity} (hm : m.Owns)
    (hkeys : keys.Perm (m.ownedKeys.erase k.identity)) :
    Owns { m with ownedKeys := keys } ∧
      ∀ id, id ∈ keys ↔ id ≠ k.identity ∧ id ∈ m.ownedKeys :=
  ⟨⟨hkeys.symm.nodup (hm.nodup.erase _),
    hkeys.length_eq.trans_le (List.length_erase_le.trans hm.bounded)⟩,
    fun _ => hkeys.mem_iff.trans hm.nodup.mem_erase_iff⟩

theorem Routes.fresh {keys : List KeyIdentity} (hm : m.Owns) (hkind : k.kind = .press)
    (hmod : k.isModifier = false) (hkeys : keys.Perm (m.ownedKeys.erase k.identity))
    (h : freshKey { m with ownedKeys := keys } (.enhanced k) true = .ok (r, m')) :
    Routes m k r m' := by
  obtain ⟨howns, hmem⟩ := hm.removed hkeys
  obtain ⟨hforward, hkeys', hroom⟩ := freshKey_spec h
  dsimp only at hforward hkeys' hroom
  have hout : k.identity ∉ keys := fun hin => ((hmem _).mp hin).1 rfl
  refine ⟨⟨?_, ?_⟩, fun id hid => ?_, fun _ => ⟨?_, by simp [hforward, hmod]⟩, absurd hkind, ?_, ?_⟩
  · rw [hkeys']
    split
    · simpa using howns.nodup
    · exact List.nodup_append'.mpr ⟨howns.nodup, List.nodup_singleton _,
        List.disjoint_singleton.mpr hout⟩
  · have hle : keys.length ≤ heldCommandKeys := howns.bounded
    rw [hkeys', List.length_append]
    split
    · simpa using hle
    · have := hroom ‹_›
      simp only [List.length_singleton]
      omega
  · rw [hkeys', List.mem_append, hmem]
    split <;> simp [hid]
  · rw [hkeys', List.mem_append]
    split <;> rename_i hr <;> simp [hr, hout]
  · simp [hkind]
  · simp [hkind]

theorem key_routes (hm : m.Owns) (h : m.key (.enhanced k) true = .ok (r, m')) :
    Routes m k r m' := by
  unfold key at h
  dsimp only at h
  split at h
  · rename_i index hindex
    have hin : k.identity ∈ m.ownedKeys := by
      obtain ⟨hlt, hget, -⟩ := List.findIdx?_eq_some_iff_getElem.mp hindex
      exact of_decide_eq_true hget ▸ List.getElem_mem hlt
    have hkeys := owned_removed hm.nodup hindex
    obtain ⟨howns, hmem⟩ := hm.removed hkeys
    split at h
    · obtain ⟨rfl, rfl⟩ := Prod.mk.inj (Except.ok.inj h)
      exact ⟨hm, by simp, by simp [*], by simp [*], by simp, by simp [*]⟩
    rename_i hrepeat
    split at h
    · obtain ⟨rfl, rfl⟩ := Prod.mk.inj (Except.ok.inj h)
      exact ⟨howns, by simp +contextual [hmem], by simp [*], by simp [*], by simp [*], by simp [hmem]⟩
    rename_i hrelease
    have hkind : k.kind = .press := by cases hk : k.kind <;> simp_all
    split at h
    · obtain ⟨rfl, rfl⟩ := Prod.mk.inj (Except.ok.inj h)
      exact ⟨howns, by simp +contextual [hmem], by simp [*], by simp [*], by simp [*], by simp [*]⟩
    · rename_i hmod
      exact .fresh hm hkind (by simpa using hmod) hkeys h
  · rename_i hnone
    have hout : k.identity ∉ m.ownedKeys := fun hin => by
      simpa using List.findIdx?_eq_none_iff.mp hnone _ hin
    split at h
    · rename_i hmod
      obtain ⟨rfl, rfl⟩ := Prod.mk.inj (Except.ok.inj h)
      refine ⟨hm, by simp, fun hkind => ⟨by simp [hout], ?_⟩, by simp [hout], by simp, by simp [hout]⟩
      simp [hmod.resolve_right (not_not.mpr hkind)]
    · rename_i hpress
      obtain ⟨hmod, hkind⟩ := not_or.mp hpress
      refine .fresh hm (not_not.mp hkind) (by simpa using hmod) (.of_eq ?_) h
      exact (List.erase_of_not_mem hout).symm

/-! ## Sequences -/

theorem keyEvents_keeps {events : List KeyEvent} {P : List KeyIdentity → Prop} (hm : m.Owns)
    (hp : P m.ownedKeys)
    (hkey : ∀ m k r m', .key k ∈ events → Routes m k r m' → P m.ownedKeys → P m'.ownedKeys)
    (h : m.keyEvents events = .ok m') : m'.Owns ∧ P m'.ownedKeys := by
  induction events generalizing m with
  | nil =>
    obtain rfl := Except.ok.inj h
    exact ⟨hm, hp⟩
  | cons event events ih =>
    obtain ⟨m1, hstep, h⟩ := bind_ok.mp h
    have hlater := fun m k r m' hk => hkey m k r m' (List.mem_cons_of_mem event hk)
    cases event with
    | cancel =>
      obtain rfl := Except.ok.inj hstep
      exact ih (m := { m with pending := false }) ⟨hm.nodup, hm.bounded⟩ hp hlater h
    | key k =>
      obtain ⟨⟨r, m2⟩, hk, hret⟩ := bind_ok.mp hstep
      obtain rfl := Except.ok.inj hret
      have hroutes := key_routes hm hk
      exact ih hroutes.owns (hkey m k r m2 List.mem_cons_self hroutes hp) hlater h

theorem new_owns : new.Owns := ⟨List.nodup_nil, Nat.zero_le _⟩

def prefixPress : EnhancedKey := ⟨.unicode 93, none, none, modControl, .press, [], []⟩

def prefixRelease : EnhancedKey := { prefixPress with modifiers := 0, kind := .release }

def otherPress : EnhancedKey := { prefixPress with code := .unicode 97 }

end CommandMode

end Voytty.Cli
