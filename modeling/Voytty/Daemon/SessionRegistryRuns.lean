import Voytty.Daemon.SessionRegistry
import Voytty.Lib.Transition

/-!
# What each creation holds

`Holding` is what one ownership token has in the registry: nothing, a name, a
name with an identity, or an actor that is provisional, live or kept for cleanup
only. Each registry operation moves one token from one holding to another and
leaves every other token's alone (`Moves`). The stage of the creator and of the
worker say which holdings are possible (`Fits`), and the registry's consistency
is read off the holdings.
-/

namespace Voytty.Daemon

open Voytty.Lib

/-! ## Holdings -/

inductive Holding where
  | nothing
  | named (name : SessionName)
  | identified (name : SessionName) (sessionId : SessionId)
  | provisional (entry : SessionEntry)
  | live (entry : SessionEntry)
  | cleanup (entry : SessionEntry)

namespace Holding

def slot (k : Nat) : Holding → Option (SessionName × NameSlot)
  | .named name => some (name, .starting k none)
  | .identified name sessionId => some (name, .starting k (some sessionId))
  | .provisional entry => some (entry.name, .starting k (some entry.actor.id))
  | .live entry => some (entry.name, .live entry.actor.id k)
  | .nothing | .cleanup _ => none

def reservation (k : Nat) : Holding → Option (SessionId × Nat)
  | .identified _ sessionId => some (sessionId, k)
  | .provisional entry | .live entry => some (entry.actor.id, k)
  | .nothing | .named _ | .cleanup _ => none

def provisionalEntry : Holding → Option (SessionId × SessionEntry)
  | .provisional entry => some (entry.actor.id, entry)
  | _ => none

def liveEntry : Holding → Option (SessionId × SessionEntry)
  | .live entry => some (entry.actor.id, entry)
  | _ => none

def cleanupEntries : Holding → List SessionEntry
  | .cleanup entry => [entry]
  | _ => []

end Holding

/-- The token `k` has exactly `h` in the registry. -/
structure Registry.Holds (r : Registry) (k : Nat) (h : Holding) : Prop where
  byName : Share NameSlot.ownership k r.byName (h.slot k)
  reservations : Share id k r.reservations (h.reservation k)
  byId : Share SessionEntry.ownership k r.byId h.liveEntry
  provisional : Share SessionEntry.ownership k r.provisional h.provisionalEntry
  cleanupOnly : r.cleanupOnly.filter (·.ownership = k) = h.cleanupEntries

/-- What the token `k` has is the same in both registries. -/
structure Registry.Untouched (k : Nat) (r r' : Registry) : Prop where
  byName : Unchanged NameSlot.ownership k r.byName r'.byName
  reservations : Unchanged id k r.reservations r'.reservations
  byId : Unchanged SessionEntry.ownership k r.byId r'.byId
  provisional : Unchanged SessionEntry.ownership k r.provisional r'.provisional
  cleanupOnly : r'.cleanupOnly.filter (·.ownership = k) = r.cleanupOnly.filter (·.ownership = k)

namespace Registry

variable {r r' : Registry} {k l limit : Nat} {h h' : Holding} {e : SessionEntry}
  {name : SessionName} {sessionId : SessionId}

theorem Untouched.refl : r.Untouched k r := ⟨.refl, .refl, .refl, .refl, rfl⟩

theorem Holds.congr (hh : r.Holds k h) (hu : r.Untouched k r') : r'.Holds k h :=
  ⟨hh.byName.congr hu.byName, hh.reservations.congr hu.reservations, hh.byId.congr hu.byId,
    hh.provisional.congr hu.provisional, hu.cleanupOnly.trans hh.cleanupOnly⟩

/-- One operation: `k` comes to hold `h`, everyone else keeps what they had. -/
structure Moves (limit k : Nat) (h : Holding) (r r' : Registry) : Prop where
  own : r'.Holds k h
  others : ∀ l, l ≠ k → r.Untouched l r'
  within : r.reservations.size ≤ limit → r'.reservations.size ≤ limit

theorem Moves.refl (hh : r.Holds k h) : Moves limit k h r r := ⟨hh, fun _ _ => .refl, id⟩

theorem size_erase_le {κ υ : Type} [LinearOrder κ] {m : OrdMap κ υ} {a : κ} :
    m.size ≤ limit → (m.erase a).size ≤ limit := fun h => Std.TreeMap.size_erase_le.trans h

theorem filter_append_other {es : List SessionEntry} (hk : e.ownership ≠ l) :
    (es ++ [e]).filter (·.ownership = l) = es.filter (·.ownership = l) := by
  simp [List.filter_append, hk]

/-! ## Registries whose every token has a holding -/

def Whole (r : Registry) : Prop := ∀ l, ∃ h, r.Holds l h

theorem Holds.of_live (hh : r.Holds k h) (hg : r.byId[sessionId]? = some e) (hk : e.ownership = k) :
    h = .live e ∧ e.actor.id = sessionId := by
  have := hh.byId.eq_of_get hg hk
  cases h with
  | live _ => cases this; exact ⟨rfl, rfl⟩
  | _ => cases this

theorem Holds.of_provisional (hh : r.Holds k h) (hg : r.provisional[sessionId]? = some e)
    (hk : e.ownership = k) : h = .provisional e ∧ e.actor.id = sessionId := by
  have := hh.provisional.eq_of_get hg hk
  cases h with
  | provisional _ => cases this; exact ⟨rfl, rfl⟩
  | _ => cases this

theorem Holds.of_cleanup (hh : r.Holds k h) (hg : e ∈ r.cleanupOnly) (hk : e.ownership = k) :
    h = .cleanup e := by
  have : e ∈ h.cleanupEntries := by
    rw [← hh.cleanupOnly]
    simpa using ⟨hg, hk⟩
  cases h <;> simp_all [Holding.cleanupEntries]

theorem Whole.reserved_live (hw : r.Whole) (hg : r.byId[sessionId]? = some e) :
    r.reservations[sessionId]? = some e.ownership := by
  obtain ⟨h, hh⟩ := hw e.ownership
  obtain ⟨rfl, rfl⟩ := hh.of_live hg rfl
  exact hh.reservations.get

theorem Whole.reserved_provisional (hw : r.Whole) (hg : r.provisional[sessionId]? = some e) :
    r.reservations[sessionId]? = some e.ownership := by
  obtain ⟨h, hh⟩ := hw e.ownership
  obtain ⟨rfl, rfl⟩ := hh.of_provisional hg rfl
  exact hh.reservations.get

theorem Whole.byId_none (hw : r.Whole) (hr : r.reservations[sessionId]? = some k)
    (hs : Share SessionEntry.ownership k r.byId none) : r.byId[sessionId]? = none := by
  cases hg : r.byId[sessionId]? with
  | none => rfl
  | some e =>
    have := hw.reserved_live hg
    rw [hr] at this
    cases this
    exact absurd rfl (Share.none_iff.mp hs _ _ hg)

theorem Whole.provisional_none (hw : r.Whole) (hr : r.reservations[sessionId]? = some k)
    (hs : Share SessionEntry.ownership k r.provisional none) : r.provisional[sessionId]? = none := by
  cases hg : r.provisional[sessionId]? with
  | none => rfl
  | some e =>
    have := hw.reserved_provisional hg
    rw [hr] at this
    cases this
    exact absurd rfl (Share.none_iff.mp hs _ _ hg)

/-- Every entry of the actor `ptr` belongs to `k`. -/
structure Runs (r : Registry) (k ptr : Nat) : Prop where
  byId : ∀ (sessionId : SessionId) e, r.byId[sessionId]? = some e → e.actor.ptr = ptr →
    e.ownership = k
  provisional : ∀ (sessionId : SessionId) e, r.provisional[sessionId]? = some e →
    e.actor.ptr = ptr → e.ownership = k
  cleanupOnly : ∀ e ∈ r.cleanupOnly, e.actor.ptr = ptr → e.ownership = k

/-! ## The operations -/

theorem reserveName_spec (waitForStarting : Bool) (limit : Nat) (name : SessionName)
    (hh : r.Holds k .nothing) :
    (∃ r', r.reserveName name waitForStarting k = (.ok (.owner k), r') ∧
      Moves limit k (.named name) r r') ∨
    ∃ result, r.reserveName name waitForStarting k = (result, r) ∧
      ∀ creation, result ≠ .ok (.owner creation) := by
  unfold reserveName
  by_cases ha : (!r.accepting) = true
  · exact .inr ⟨.error shuttingDown, if_pos ha, nofun⟩
  rw [if_neg ha]
  cases hn : r.byName[name]? with
  | some slot =>
    right
    cases slot with
    | live sessionId _ =>
      cases hb : r.byId[sessionId]? with
      | none => exact ⟨.error sessionNotFound, by simp [hb], nofun⟩
      | some entry => exact ⟨.ok (.existing entry), by simp [hb], nofun⟩
    | starting current _ => cases waitForStarting <;> exact ⟨_, rfl, nofun⟩
  | none =>
    refine .inl ⟨_, rfl, ⟨⟨hh.byName.insert rfl, hh.reservations, hh.byId, hh.provisional,
      hh.cleanupOnly⟩, fun l hl => { Untouched.refl with byName := ?_ }, id⟩⟩
    exact .insert (fun w hw => by rw [hn] at hw; cases hw) hl.symm

theorem reserveCreationSession_spec (cancelled : Bool) (limit : Nat) (candidates : Nat → SessionId)
    (hh : r.Holds k (.named name)) :
    (∃ sessionId r', r.reserveCreationSession name k cancelled limit candidates =
      (.ok sessionId, r') ∧ Moves limit k (.identified name sessionId) r r') ∨
    ∃ error, r.reserveCreationSession name k cancelled limit candidates = (.error error, r) := by
  unfold reserveCreationSession
  split
  · exact .inr ⟨_, rfl⟩
  split
  · exact .inr ⟨_, rfl⟩
  rename_i hroom
  split
  · exact .inr ⟨_, rfl⟩
  rename_i sessionId hfind
  have hfree : r.reservations[sessionId]? = none := by
    have := List.find?_some hfind
    simp only [isFree, Bool.and_eq_true, Bool.not_eq_true'] at this
    exact Std.TreeMap.getElem?_eq_none_of_contains_eq_false this.2
  refine .inl ⟨sessionId, _, rfl, ⟨⟨hh.byName.replace rfl, hh.reservations.insert rfl, hh.byId,
    hh.provisional, hh.cleanupOnly⟩, fun l hl => { Untouched.refl with
      byName := .insert (hh.byName.other hl) hl.symm
      reservations := .insert (fun w hw => by rw [hfree] at hw; cases hw) hl.symm }, fun _ => ?_⟩⟩
  exact OrdMap.size_insert_le.trans (Nat.lt_of_not_le hroom)

theorem register_moves (hh : r.Holds k (.identified e.name e.actor.id)) (hk : e.ownership = k)
    (hp : r.provisional[e.actor.id]? = none) :
    Moves limit k (.provisional e) r
      { r with provisional := r.provisional.insert e.actor.id e } := by
  refine ⟨⟨hh.byName, hh.reservations, hh.byId, hh.provisional.insert hk, hh.cleanupOnly⟩,
    fun l hl => { Untouched.refl with provisional := ?_ }, id⟩
  exact .insert (fun w hw => by rw [hp] at hw; cases hw) (hk ▸ hl.symm)

theorem registerProvisional_spec (limit : Nat) (hh : r.Holds k (.identified e.name e.actor.id))
    (hk : e.ownership = k) :
    (∃ r', r.registerProvisional e.actor.id e = (.ok (), r') ∧
      Moves limit k (.provisional e) r r') ∨
    ∃ error, r.registerProvisional e.actor.id e = (.error error, r) := by
  unfold registerProvisional
  split
  · exact .inr ⟨_, rfl⟩
  rename_i hnew
  split
  · exact .inr ⟨_, rfl⟩
  simp only [Bool.or_eq_true, not_or, Bool.not_eq_true] at hnew
  exact .inl ⟨_, rfl, register_moves hh hk
    (Std.TreeMap.getElem?_eq_none_of_contains_eq_false hnew.1.2)⟩

section Runs

variable {ptr : Nat}

theorem Runs.not_live (hr : r.Runs k ptr) (hs : Share SessionEntry.ownership k r.byId none)
    (hg : r.byId[sessionId]? = some e) : e.actor.ptr ≠ ptr :=
  fun hptr => Share.none_iff.mp hs _ _ hg (hr.byId _ _ hg hptr)

theorem Runs.not_provisional (hr : r.Runs k ptr)
    (hs : Share SessionEntry.ownership k r.provisional none)
    (hg : r.provisional[sessionId]? = some e) : e.actor.ptr ≠ ptr :=
  fun hptr => Share.none_iff.mp hs _ _ hg (hr.provisional _ _ hg hptr)

theorem Runs.not_cleanup (hr : r.Runs k ptr) (hs : r.cleanupOnly.filter (·.ownership = k) = [])
    (he : e ∈ r.cleanupOnly) : e.actor.ptr ≠ ptr := by
  intro hptr
  have : e ∈ r.cleanupOnly.filter (·.ownership = k) := by simpa using ⟨he, hr.cleanupOnly _ he hptr⟩
  simp [hs] at this

theorem Runs.not_known {actor : SessionActor} (hr : r.Runs k actor.ptr)
    (hl : Share SessionEntry.ownership k r.byId none)
    (hp : Share SessionEntry.ownership k r.provisional none)
    (hc : r.cleanupOnly.filter (·.ownership = k) = []) : r.knows sessionId actor = false := by
  simp only [knows, Bool.or_eq_false_iff, Option.any_eq_false, List.any_eq_false, decide_eq_true_eq]
  exact ⟨⟨fun e hg => by simpa using hr.not_provisional hp hg,
    fun e hg => by simpa using hr.not_live hl hg⟩, fun e he => hr.not_cleanup hc he⟩

end Runs

theorem retain_known {entry : SessionEntry} (hk : r.knows sessionId entry.actor = true) :
    r.retainProvisionalForCleanup sessionId entry = r := if_pos hk

theorem retain_identified (hw : r.Whole) (hr : r.Runs k e.actor.ptr)
    (hh : r.Holds k (.identified e.name e.actor.id)) (hk : e.ownership = k) :
    Moves limit k (.provisional e) r (r.retainProvisionalForCleanup e.actor.id e) := by
  have hres : r.reservations[e.actor.id]? = some k := hh.reservations.get
  have hprov := hw.provisional_none hres hh.provisional
  unfold retainProvisionalForCleanup
  rw [hr.not_known hh.byId hh.provisional hh.cleanupOnly, if_neg (by simp), if_pos]
  · exact register_moves hh hk hprov
  · refine ⟨by rw [hk]; exact hh.byName.get, by rw [hk]; exact hres, ?_, ?_⟩
    · rw [Std.TreeMap.contains_eq_isSome_getElem?, hw.byId_none hres hh.byId]; rfl
    · rw [Std.TreeMap.contains_eq_isSome_getElem?, hprov]; rfl

theorem retain_nothing (hr : r.Runs k e.actor.ptr) (hh : r.Holds k .nothing)
    (hk : e.ownership = k) :
    Moves limit k (.cleanup e) r (r.retainProvisionalForCleanup e.actor.id e) := by
  unfold retainProvisionalForCleanup
  rw [hr.not_known hh.byId hh.provisional hh.cleanupOnly, if_neg (by simp), if_neg]
  · refine ⟨⟨hh.byName, hh.reservations, hh.byId, hh.provisional, ?_⟩,
      fun l hl => { Untouched.refl with cleanupOnly := filter_append_other (hk ▸ hl.symm) }, id⟩
    have hnil : r.cleanupOnly.filter (·.ownership = k) = [] := hh.cleanupOnly
    simp [List.filter_append, hnil, hk, Holding.cleanupEntries]
  · rintro ⟨hn, -⟩
    exact Share.none_iff.mp hh.byName _ _ hn hk

theorem publishName_spec (cancelled : Bool) (limit : Nat) (hw : r.Whole) (hh : r.Holds k h)
    (hshape : h = .provisional e ∨ h = .nothing) (hname : e.name = name) (hk : e.ownership = k) :
    (∃ r', r.publishName name k cancelled e.actor.id e.actor = (true, r') ∧ h = .provisional e ∧
      Moves limit k (.live e) r r') ∨
    r.publishName name k cancelled e.actor.id e.actor = (false, r) := by
  unfold publishName
  split
  · exact .inr rfl
  rename_i hown
  rcases hshape with rfl | rfl
  · have hg : r.provisional[e.actor.id]? = some e := hh.provisional.get
    have hfree := hw.byId_none hh.reservations.get hh.byId
    simp only [hg, ne_eq, not_true_eq_false, if_false]
    subst hname
    refine .inl ⟨_, rfl, trivial, ⟨?_, hh.reservations, ?_, hh.provisional.erase,
      hh.cleanupOnly⟩, fun l hl => { Untouched.refl with
        byName := .insert (hh.byName.other hl) (hk ▸ hl.symm)
        byId := .insert (fun w hw => by rw [hfree] at hw; cases hw) (hk ▸ hl.symm)
        provisional := .erase (hh.provisional.other hl) }, id⟩
    · rw [hk]; exact hh.byName.replace rfl
    · exact hh.byId.insert hk
  · have := (not_not.mp hown).2.2
    exact absurd rfl (Share.none_iff.mp hh.byName _ _ this)

theorem releaseCreation_named (hh : r.Holds k (.named name)) :
    Moves limit k .nothing r (r.releaseCreation name k none) := by
  unfold releaseCreation
  rw [if_pos hh.byName.get]
  exact ⟨⟨hh.byName.erase, hh.reservations, hh.byId, hh.provisional, hh.cleanupOnly⟩,
    fun l hl => { Untouched.refl with byName := .erase (hh.byName.other hl) }, id⟩

theorem releaseCreation_identified (hh : r.Holds k (.identified name sessionId)) :
    Moves limit k .nothing r (r.releaseCreation name k (some sessionId)) := by
  unfold releaseCreation
  dsimp only
  rw [if_pos hh.byName.get, if_pos hh.reservations.get]
  exact ⟨⟨hh.byName.erase, hh.reservations.erase, hh.byId, hh.provisional, hh.cleanupOnly⟩,
    fun l hl => { Untouched.refl with
      byName := .erase (hh.byName.other hl)
      reservations := .erase (hh.reservations.other hl) }, size_erase_le⟩

theorem rename_spec (limit : Nat) (sessionId : SessionId) (newName : SessionName) (hw : r.Whole) :
    (∃ current, r.byId[sessionId]? = some current ∧
      r.Holds current.ownership (.live current) ∧
      Moves limit current.ownership (.live { current with name := newName }) r
        (r.rename sessionId newName).2) ∨
    (r.rename sessionId newName).2 = r := by
  unfold rename
  by_cases ha : (!r.accepting) = true
  · exact .inr (by simp [ha])
  rw [if_neg ha]
  cases hg : r.byId[sessionId]? with
  | none => exact .inr rfl
  | some current =>
    dsimp only
    split
    · exact .inr rfl
    split
    · exact .inr rfl
    rename_i hnew
    split
    · exact .inr rfl
    obtain ⟨h, hh⟩ := hw current.ownership
    obtain ⟨rfl, rfl⟩ := hh.of_live hg rfl
    have hfree : ∀ w, (r.byName.erase current.name)[newName]? ≠ some w := by
      intro w hw
      rw [OrdMap.get_erase] at hw
      split at hw
      · cases hw
      · exact hnew (by rw [Std.TreeMap.contains_eq_isSome_getElem?, hw]; rfl)
    refine .inl ⟨current, rfl, hh, ⟨hh.byName.erase.insert rfl, hh.reservations,
      hh.byId.replace rfl, hh.provisional, hh.cleanupOnly⟩, fun l hl => { Untouched.refl with
        byName := (Unchanged.erase (hh.byName.other hl)).trans
          (.insert (fun w hw => absurd hw (hfree w)) hl.symm)
        byId := .insert (hh.byId.other hl) hl.symm }, id⟩

/-! ## Completion -/

theorem freeOwned_moves (hh : r.Holds k h) (hk : e.ownership = k)
    (hs : h = .provisional e ∨ h = .live e) :
    Share NameSlot.ownership k (r.freeOwned e.actor.id e).byName none ∧
    Share id k (r.freeOwned e.actor.id e).reservations none ∧
    ∀ l, l ≠ k → Unchanged NameSlot.ownership l r.byName (r.freeOwned e.actor.id e).byName ∧
      Unchanged id l r.reservations (r.freeOwned e.actor.id e).reservations := by
  have hslot : ∃ slot, h.slot k = some (e.name, slot) ∧
      (slot = .live e.actor.id e.ownership ∨ slot = .starting e.ownership (some e.actor.id)) := by
    rw [hk]
    rcases hs with rfl | rfl
    · exact ⟨_, rfl, .inr rfl⟩
    · exact ⟨_, rfl, .inl rfl⟩
  have hres : h.reservation k = some (e.actor.id, k) := by rcases hs with rfl | rfl <;> rfl
  obtain ⟨slot, hsome, hcase⟩ := hslot
  have hbyName := hsome ▸ hh.byName
  have hreservations := hres ▸ hh.reservations
  have hget := hbyName.get
  unfold freeOwned
  rw [if_pos (by rcases hcase with rfl | rfl <;> simp [hget]), if_pos (by
    rw [hk]; exact hreservations.get)]
  exact ⟨hbyName.erase, hreservations.erase, fun l hl =>
    ⟨.erase (hbyName.other hl), .erase (hreservations.other hl)⟩⟩

theorem freeOwned_cleanup (hh : r.Holds k (.cleanup e)) (hk : e.ownership = k) :
    r.freeOwned sessionId e = r := by
  have hn := Share.none_iff.mp hh.byName
  have hres := Share.none_iff.mp hh.reservations
  unfold freeOwned
  rw [if_neg, if_neg]
  · exact fun hg => hres _ _ hg hk
  · rintro (hg | hg)
    · exact hn _ _ hg hk
    · exact hn _ _ hg hk

theorem freeOwned_within (hs : r.reservations.size ≤ limit) :
    (r.freeOwned sessionId e).reservations.size ≤ limit := by
  unfold freeOwned
  dsimp only
  split
  · exact size_erase_le hs
  · exact hs

def Completable (k : Nat) (actor : SessionActor) (h : Holding) : Prop :=
  h = .nothing ∨ ∃ e : SessionEntry, e.actor = actor ∧ e.ownership = k ∧
    (h = .live e ∨ h = .provisional e ∨ h = .cleanup e)

theorem filter_ptr_none {o : Option SessionEntry} {ptr : Nat} (h : ∀ e, o = some e → e.actor.ptr ≠ ptr) :
    o.filter (·.actor.ptr = ptr) = none := by
  cases o with
  | none => rfl
  | some e => simp [Option.filter, h e rfl]

theorem complete_spec {actor : SessionActor} (hr : r.Runs k actor.ptr) (hh : r.Holds k h)
    (hc : Completable k actor h) :
    Moves limit k .nothing r (r.complete actor.id actor) := by
  unfold complete
  rcases hc with rfl | ⟨e, rfl, hk, rfl | rfl | rfl⟩
  · -- nothing of the token is left, so no entry is the actor's
    rw [filter_ptr_none fun e hg => hr.not_live hh.byId hg,
      filter_ptr_none fun e hg => hr.not_provisional hh.provisional hg]
    dsimp only
    rw [List.find?_eq_none.mpr fun e he => by simpa using hr.not_cleanup hh.cleanupOnly he]
    exact .refl hh
  · obtain ⟨hn, hres, ho⟩ := freeOwned_moves hh hk (.inr rfl)
    have hg : r.byId[e.actor.id]? = some e := hh.byId.get
    rw [hg, Option.filter_some_pos (by simp)]
    exact ⟨⟨hn, hres, hh.byId.erase, hh.provisional, hh.cleanupOnly⟩, fun l hl =>
      { Untouched.refl with
        byName := (ho l hl).1
        reservations := (ho l hl).2
        byId := .erase (hh.byId.other hl) }, freeOwned_within⟩
  · obtain ⟨hn, hres, ho⟩ := freeOwned_moves hh hk (.inl rfl)
    have hg : r.provisional[e.actor.id]? = some e := hh.provisional.get
    rw [filter_ptr_none fun e hg => hr.not_live hh.byId hg]
    dsimp only
    rw [hg, Option.filter_some_pos (by simp)]
    exact ⟨⟨hn, hres, hh.byId, hh.provisional.erase, hh.cleanupOnly⟩, fun l hl =>
      { Untouched.refl with
        byName := (ho l hl).1
        reservations := (ho l hl).2
        provisional := .erase (hh.provisional.other hl) }, freeOwned_within⟩
  · rw [filter_ptr_none fun e hg => hr.not_live hh.byId hg,
      filter_ptr_none fun e hg => hr.not_provisional hh.provisional hg]
    dsimp only
    have hmem : e ∈ r.cleanupOnly :=
      (List.mem_filter.mp (by rw [hh.cleanupOnly]; exact List.mem_singleton_self e)).1
    have hfind : r.cleanupOnly.find? (·.actor.ptr = e.actor.ptr) = some e := by
      cases hf : r.cleanupOnly.find? (·.actor.ptr = e.actor.ptr) with
      | none => simpa using List.find?_eq_none.mp hf e hmem
      | some x =>
        have hx := List.mem_of_find?_eq_some hf
        have hown := hr.cleanupOnly x hx (by simpa using List.find?_some hf)
        cases hh.of_cleanup hx hown
        rfl
    rw [hfind]
    dsimp only
    rw [freeOwned_cleanup hh hk]
    refine ⟨⟨hh.byName, hh.reservations, hh.byId, hh.provisional, ?_⟩, fun l hl =>
      { Untouched.refl with cleanupOnly := ?_ }, id⟩
    · rw [filter_eraseP_of_imp fun x hx hptr => by
        simpa using hr.cleanupOnly x hx (by simpa using hptr), hh.cleanupOnly]
      simp [Holding.cleanupEntries]
    · refine filter_eraseP_of_not fun x hx hptr => ?_
      rw [hr.cleanupOnly x hx (by simpa using hptr)]
      simpa using hl.symm

end Registry

/-! ## Stages -/

def Stage.entry : Stage → Option SessionEntry
  | .started e | .retaining _ e | .marking _ e | .loading _ e | .completing _ e | .publishing e =>
    some e
  | .finished e => e
  | .reserved | .identified _ | .releasing _ => none

/-- The creator has an identity, but its actor is not registered: it has not started, or the
registration failed and the actor is about to be retained. -/
def Stage.unregistered : Stage → Bool
  | .identified _ | .releasing (some _) | .started _ | .retaining .cleanup _ => true
  | _ => false

/-- What a creator with the actor `e` may hold at each stage. Before the flag `registry_owned` is
set, the worker removes nothing. Afterwards the actor may be gone once its worker is done, and it
is gone if the worker has finished, unless the creator is still to look at `worker_done`. -/
def Stage.Permits (e : SessionEntry) (a : Actor) (h : Holding) : Stage → Prop
  | .started _ | .retaining .cleanup _ =>
    a.registryOwned = false ∧ h = .identified e.name e.actor.id
  | .marking .publish _ | .marking .cleanup _ => a.registryOwned = false ∧ h = .provisional e
  | .loading .publish _ | .loading .cleanup _ =>
    a.registryOwned = true ∧ (h = .provisional e ∨ a.workerDone = true ∧ h = .nothing)
  | .completing .publish _ | .completing .cleanup _ =>
    a.registryOwned = true ∧ a.workerDone = true ∧ (h = .provisional e ∨ h = .nothing)
  | .publishing _ | .retaining .finish _ =>
    a.registryOwned = true ∧
      (h = .provisional e ∧ a.worker ≠ .finished ∨ a.workerDone = true ∧ h = .nothing)
  | .marking .finish _ | .loading .finish _ =>
    a.registryOwned = true ∧
      (h = .provisional e ∨ a.workerDone = true ∧ (h = .nothing ∨ h = .cleanup e))
  | .completing .finish _ =>
    a.registryOwned = true ∧ a.workerDone = true ∧
      (h = .provisional e ∨ h = .nothing ∨ h = .cleanup e)
  | .finished _ =>
    a.registryOwned = true ∧
      ((h = .provisional e ∨ ∃ name, h = .live { e with name }) ∧ a.worker ≠ .finished ∨
        a.workerDone = true ∧ h = .nothing)
  | .reserved | .identified _ | .releasing _ | .retaining .publish _ => False

/-- The creation `k` of `name` may hold `h` at this stage. -/
inductive Fits (actors : List Actor) (k : Nat) (name : SessionName) : Stage → Holding → Prop
  | reserved : Fits actors k name .reserved (.named name)
  | identified (sessionId : SessionId) :
    Fits actors k name (.identified sessionId) (.identified name sessionId)
  | releasingName : Fits actors k name (.releasing none) (.named name)
  | releasing (sessionId : SessionId) :
    Fits actors k name (.releasing (some sessionId)) (.identified name sessionId)
  | abandoned : Fits actors k name (.finished none) .nothing
  | acting {stage : Stage} {h : Holding} {e : SessionEntry} {a : Actor} (he : stage.entry = some e)
    (hk : e.ownership = k) (hn : e.name = name) (ha : actors[e.actor.ptr]? = some a)
    (hid : a.id = e.actor.id) (hc : a.worker = .completing → a.registryOwned = true)
    (hp : stage.Permits e a h) : Fits actors k name stage h

variable {e x : SessionEntry} {a : Actor} {h : Holding} {actors : List Actor} {k : Nat}
  {name : SessionName} {after : After}

theorem Stage.Permits.entry {stage : Stage} (hp : stage.Permits e a h)
    (hx : h = .live x ∨ h = .provisional x ∨ h = .cleanup x) :
    x.actor = e.actor := by
  unfold Stage.Permits at hp
  rcases hx with rfl | rfl | rfl <;> split at hp <;> simp_all
  · obtain ⟨name, rfl⟩ := hp.2.1
    rfl

theorem Fits.entry {stage : Stage} (hf : Fits actors k name stage h)
    (hx : h = .live x ∨ h = .provisional x ∨ h = .cleanup x) :
    ∃ e, stage.entry = some e ∧ x.actor = e.actor := by
  cases hf with
  | acting he _ _ _ _ _ hp => exact ⟨_, he, hp.entry hx⟩
  | _ => rcases hx with hx | hx | hx <;> cases hx

theorem Fits.congr {actors' : List Actor} {stage : Stage} (hf : Fits actors k name stage h)
    (ha : ∀ e, stage.entry = some e → actors'[e.actor.ptr]? = actors[e.actor.ptr]?) :
    Fits actors' k name stage h := by
  cases hf with
  | reserved => exact .reserved
  | identified sessionId => exact .identified sessionId
  | releasingName => exact .releasingName
  | releasing sessionId => exact .releasing sessionId
  | abandoned => exact .abandoned
  | acting he hk hn hget hid hc hp => exact .acting he hk hn ((ha _ he).trans hget) hid hc hp

theorem Fits.acts {stage : Stage} (hf : Fits actors k name stage h) (he : stage.entry = some e) :
    ∃ a, e.ownership = k ∧ e.name = name ∧ actors[e.actor.ptr]? = some a ∧ a.id = e.actor.id ∧
      (a.worker = .completing → a.registryOwned = true) ∧ stage.Permits e a h := by
  cases hf with
  | acting he' hk hn ha hid hc hp =>
    rw [he] at he'
    cases he'
    exact ⟨_, hk, hn, ha, hid, hc, hp⟩
  | _ => cases he

@[simp] theorem After.stage_entry (after : After) (e : SessionEntry) :
    (after.stage e).entry = some e := by
  cases after <;> rfl

theorem Stage.Permits.completable {stage : Stage} (hp : stage.Permits e a h) (hk : e.ownership = k)
    (ho : a.registryOwned = true) :
    Registry.Completable k e.actor h := by
  have hshape : h = .nothing ∨ h = .provisional e ∨ h = .cleanup e ∨
      ∃ name, h = .live { e with name } := by
    unfold Stage.Permits at hp
    split at hp <;> simp_all <;> grind
  rcases hshape with hn | hprov | hclean | ⟨name, hlive⟩
  · exact .inl hn
  · exact .inr ⟨e, rfl, hk, .inr (.inl hprov)⟩
  · exact .inr ⟨e, rfl, hk, .inr (.inr hclean)⟩
  · exact .inr ⟨{ e with name }, rfl, hk, .inl hlive⟩

theorem Stage.Permits.marked (hp : (Stage.marking after e).Permits e a h) :
    (Stage.loading after e).Permits e { a with registryOwned := true } h := by
  cases after with
  | publish | cleanup => exact ⟨rfl, .inl hp.2⟩
  | finish => exact ⟨rfl, hp.2⟩

theorem After.stage_permits_nothing (ho : a.registryOwned = true) (hd : a.workerDone = true) :
    (after.stage e).Permits e a .nothing := by
  cases after <;> simp [After.stage, Stage.Permits, ho, hd]

theorem Stage.Permits.running (hp : (Stage.loading after e).Permits e a h)
    (hd : a.workerDone = false) :
    (after.stage e).Permits e a h := by
  have hw : a.worker ≠ .finished := by
    intro hw
    simp [Actor.workerDone, hw] at hd
  cases after <;> simp_all [After.stage, Stage.Permits]

theorem Stage.Permits.stopped {stage : Stage} (hp : stage.Permits e a (.cleanup x)) :
    a.workerDone = true := by
  unfold Stage.Permits at hp
  split at hp <;> simp_all

theorem Stage.Permits.worker {stage : Stage} (hp : stage.Permits e a h) {w : Worker}
    (hw : w ≠ .running) (hfin : w = .finished → a.registryOwned = false) :
    stage.Permits e { a with worker := w } h := by
  have hd : ({ a with worker := w } : Actor).workerDone = true := by simp [Actor.workerDone, hw]
  unfold Stage.Permits at hp ⊢
  split at hp <;> simp_all <;> grind

theorem Stage.Permits.completed {stage : Stage} (hp : stage.Permits e a h)
    (ho : a.registryOwned = true) :
    stage.Permits e { a with worker := .finished } .nothing := by
  unfold Stage.Permits at hp ⊢
  split at hp <;> simp_all [Actor.workerDone]

theorem Fits.rename {newName : SessionName} {stage : Stage} {current : SessionEntry}
    (hf : Fits actors k name stage (.live current)) :
    Fits actors k name stage (.live { current with name := newName }) := by
  cases hf with
  | acting he hk hn ha hid hc hp =>
    refine .acting he hk hn ha hid hc ?_
    unfold Stage.Permits at hp ⊢
    split at hp <;> try simp at hp
    obtain ⟨ho, ⟨_, hlive⟩, hw⟩ := hp
    exact ⟨ho, .inl ⟨.inr ⟨newName, by rw [hlive]⟩, hw⟩⟩

/-! ## The invariant -/

namespace Sessions

variable {limit k : Nat} {s : Sessions} {c : Creation} {e : SessionEntry}

def entryOf (s : Sessions) (k : Nat) : Option SessionEntry := s.creations[k]?.bind (·.stage.entry)

structure Inv (limit : Nat) (s : Sessions) : Prop where
  holds : ∀ (k : Nat) c, s.creations[k]? = some c →
    ∃ h, s.registry.Holds k h ∧ Fits s.actors k c.name c.stage h
  fresh : ∀ k, s.creations.length ≤ k → s.registry.Holds k .nothing
  apart : ∀ k l e f, s.entryOf k = some e → s.entryOf l = some f → e.actor.ptr = f.actor.ptr → k = l
  owned : ∀ (p : Nat) a, s.actors[p]? = some a → ∃ k e, s.entryOf k = some e ∧ e.actor = ⟨p, a.id⟩
  within : s.registry.reservations.size ≤ limit

theorem inv_init (limit : Nat) : Inv limit {} where
  holds := by simp
  fresh := fun k _ => ⟨Share.none_iff.mpr (by simp), Share.none_iff.mpr (by simp),
    Share.none_iff.mpr (by simp), Share.none_iff.mpr (by simp), rfl⟩
  apart := by simp [entryOf]
  owned := by simp
  within := Nat.zero_le _

theorem entryOf_some (hc : s.creations[k]? = some c) : s.entryOf k = c.stage.entry := by
  simp [entryOf, hc]

theorem setStage_eq (hc : s.creations[k]? = some c) (st : Stage) :
    s.setStage k st = ⟨s.registry, s.creations.set k { c with stage := st }, s.actors⟩ := by
  simp [setStage, List.modify_eq_set_getElem?, hc]

theorem Inv.whole (hi : Inv limit s) : s.registry.Whole := by
  intro l
  cases hl : s.creations[l]? with
  | none => exact ⟨_, hi.fresh l (List.getElem?_eq_none_iff.mp hl)⟩
  | some c =>
    obtain ⟨h, hh, -⟩ := hi.holds l c hl
    exact ⟨h, hh⟩

theorem Inv.entry {x : SessionEntry} (hi : Inv limit s)
    (hh : ∀ h, s.registry.Holds k h → h = .live x ∨ h = .provisional x ∨ h = .cleanup x) :
    ∃ e, s.entryOf k = some e ∧ x.actor = e.actor := by
  cases hc : s.creations[k]? with
  | none =>
    rcases hh _ (hi.fresh k (List.getElem?_eq_none_iff.mp hc)) with hx | hx | hx <;> cases hx
  | some c =>
    obtain ⟨h, hk, hf⟩ := hi.holds k c hc
    obtain ⟨e, he, hx⟩ := hf.entry (hh h hk)
    exact ⟨e, (entryOf_some hc).trans he, hx⟩

theorem Inv.runs (hi : Inv limit s) (he : s.entryOf k = some e) :
    s.registry.Runs k e.actor.ptr := by
  have key : ∀ x : SessionEntry, x.actor.ptr = e.actor.ptr →
      (∀ h, s.registry.Holds x.ownership h → h = .live x ∨ h = .provisional x ∨ h = .cleanup x) →
      x.ownership = k := by
    intro x hptr hx
    obtain ⟨f, hf, hact⟩ := hi.entry hx
    exact hi.apart _ _ f e hf he (hact ▸ hptr)
  exact ⟨fun _ x hg hptr => key x hptr fun h hh => .inl (hh.of_live hg rfl).1,
    fun _ x hg hptr => key x hptr fun h hh => .inr (.inl (hh.of_provisional hg rfl).1),
    fun x hg hptr => key x hptr fun h hh => .inr (.inr (hh.of_cleanup hg rfl))⟩

variable {c' : Creation} {r : Registry} {h : Holding}

theorem Inv.set {actors : List Actor} (hi : Inv limit s) (hk : k < s.creations.length)
    (hr : Registry.Moves limit k h s.registry r) (hfit : Fits actors k c'.name c'.stage h)
    (hact : ∀ l f, l ≠ k → s.entryOf l = some f → actors[f.actor.ptr]? = s.actors[f.actor.ptr]?)
    (hapart : ∀ e l f, c'.stage.entry = some e → l ≠ k → s.entryOf l = some f → e.actor.ptr ≠ f.actor.ptr)
    (hown : ∀ (p : Nat) a, actors[p]? = some a → (∃ e, c'.stage.entry = some e ∧ e.actor = ⟨p, a.id⟩) ∨ ∃ l f, l ≠ k ∧ s.entryOf l = some f ∧ f.actor = ⟨p, a.id⟩) :
    Inv limit ⟨r, s.creations.set k c', actors⟩ := by
  have hself : entryOf ⟨r, s.creations.set k c', actors⟩ k = c'.stage.entry :=
    entryOf_some (List.getElem?_set_self hk)
  have hother : ∀ l, l ≠ k → entryOf ⟨r, s.creations.set k c', actors⟩ l = s.entryOf l :=
    fun l hl => by simp [entryOf, List.getElem?_set_ne hl.symm]
  refine ⟨fun l d hd => ?_, fun l hl => ?_, fun l m f g hf hg hfg => ?_, fun p a ha => ?_,
    hr.within hi.within⟩
  · by_cases hl : l = k
    · subst hl
      rw [List.getElem?_set_self hk] at hd
      cases hd
      exact ⟨h, hr.own, hfit⟩
    · rw [List.getElem?_set_ne (Ne.symm hl)] at hd
      obtain ⟨hold, hh, hf⟩ := hi.holds l d hd
      exact ⟨hold, hh.congr (hr.others l hl), hf.congr fun f hdf =>
        hact l f hl ((entryOf_some hd).trans hdf)⟩
  · rw [List.length_set] at hl
    exact (hi.fresh l hl).congr (hr.others l (by omega))
  · by_cases hl : l = k
    · by_cases hm : m = k
      · exact hl.trans hm.symm
      · rw [hl, hself] at hf
        rw [hother m hm] at hg
        exact absurd hfg (hapart f m g hf hm hg)
    · rw [hother l hl] at hf
      by_cases hm : m = k
      · rw [hm, hself] at hg
        exact absurd hfg.symm (hapart g l f hg hl hf)
      · rw [hother m hm] at hg
        exact hi.apart l m f g hf hg hfg
  · rcases hown p a ha with ⟨e, he, hactor⟩ | ⟨l, f, hl, hf, hactor⟩
    · exact ⟨k, e, hself.trans he, hactor⟩
    · exact ⟨l, f, (hother l hl).trans hf, hactor⟩

theorem Inv.advance {actors : List Actor} (hi : Inv limit s) (hc : s.creations[k]? = some c)
    (he : c'.stage.entry = c.stage.entry) (hr : Registry.Moves limit k h s.registry r)
    (hfit : Fits actors k c'.name c'.stage h)
    (hids : ∀ (p : Nat) a, actors[p]? = some a → ∃ b, s.actors[p]? = some b ∧ b.id = a.id)
    (hact : ∀ p, (∀ e, c.stage.entry = some e → e.actor.ptr ≠ p) → actors[p]? = s.actors[p]?) :
    Inv limit ⟨r, s.creations.set k c', actors⟩ := by
  have hne : ∀ e l f, c.stage.entry = some e → l ≠ k → s.entryOf l = some f →
      e.actor.ptr ≠ f.actor.ptr := fun e l f hce hl hf hptr =>
    hl (hi.apart l k f e hf ((entryOf_some hc).trans hce) hptr.symm)
  refine hi.set (List.getElem?_eq_some_iff.mp hc).1 hr hfit
    (fun l f hl hf => hact _ fun e hce => hne e l f hce hl hf) (he ▸ hne) fun p a ha => ?_
  obtain ⟨b, hb, hid⟩ := hids p a ha
  obtain ⟨l, f, hf, hactor⟩ := hi.owned p b hb
  rw [hid] at hactor
  by_cases hl : l = k
  · subst hl
    exact .inl ⟨f, (he.trans (entryOf_some hc).symm).trans hf, hactor⟩
  · exact .inr ⟨l, f, hl, hf, hactor⟩

structure Advances (limit k : Nat) (s s' : Sessions) : Prop where
  inv : Inv limit s'
  others : ∀ l, l ≠ k → s.registry.Untouched l s'.registry

theorem Advances.refl (hi : Inv limit s) : Advances limit k s s := ⟨hi, fun _ _ => .refl⟩

theorem Inv.stage {st : Stage} (hi : Inv limit s) (hc : s.creations[k]? = some c)
    (he : st.entry = c.stage.entry) (hr : Registry.Moves limit k h s.registry r)
    (hfit : Fits s.actors k c.name st h) :
    Advances limit k s ((s.setRegistry r).setStage k st) := by
  rw [setStage_eq (s := s.setRegistry r) hc]
  exact ⟨hi.advance hc he hr hfit (fun p a ha => ⟨a, ha, rfl⟩) fun _ _ => rfl, hr.others⟩

theorem Inv.actor {f : Actor → Actor} (hi : Inv limit s) (hc : s.creations[k]? = some c)
    (he : c.stage.entry = some e) (he' : c'.stage.entry = some e)
    (hr : Registry.Moves limit k h s.registry r) (hf : ∀ a, (f a).id = a.id)
    (hfit : Fits (s.actors.modify e.actor.ptr f) k c'.name c'.stage h) :
    Inv limit ⟨r, s.creations.set k c', s.actors.modify e.actor.ptr f⟩ := by
  refine hi.advance hc (he'.trans he.symm) hr hfit (fun p a ha => ?_) fun p hp => ?_
  · by_cases hp : e.actor.ptr = p
    · rw [hp, List.getElem?_modify_eq] at ha
      obtain ⟨b, hb, rfl⟩ := Option.map_eq_some_iff.mp ha
      exact ⟨b, hb, (hf b).symm⟩
    · rw [List.getElem?_modify_ne f _ hp] at ha
      exact ⟨a, ha, rfl⟩
  · exact List.getElem?_modify_ne f _ (hp e he)

/-! ## Creators -/

theorem Inv.creator_reserved {input : CreatorInput} (hi : Inv limit s)
    (hc : s.creations[k]? = some c) (hst : c.stage = .reserved) :
    Advances limit k s (s.creator limit k input) := by
  obtain ⟨h, hh, hf⟩ := hi.holds k c hc
  rw [hst] at hf
  cases hf with
  | acting he => cases he
  | reserved =>
    simp only [creator, hc, hst]
    by_cases hfail : input.fails = true
    · rw [if_pos hfail]
      exact hi.stage hc (by rw [hst]; rfl) (.refl hh) .releasingName
    rw [if_neg hfail]
    rcases Registry.reserveCreationSession_spec c.cancelled limit input.candidates hh with
      ⟨sessionId, r, hop, hm⟩ | ⟨error, hop⟩
    · rw [hop]
      exact hi.stage hc (by rw [hst]; rfl) hm (.identified sessionId)
    · rw [hop]
      exact hi.stage hc (by rw [hst]; rfl) (.refl hh) .releasingName

theorem Inv.start {sessionId : SessionId} (workingDirectory : String) (hi : Inv limit s)
    (hc : s.creations[k]? = some c) (hst : c.stage = .identified sessionId)
    (hh : s.registry.Holds k (.identified c.name sessionId)) :
    Advances limit k s ((s.setActors (s.actors ++ [⟨sessionId, false, .running⟩])).setStage k
      (.started ⟨⟨s.actors.length, sessionId⟩, c.name, workingDirectory, k⟩)) := by
  have hnone : s.entryOf k = none := by rw [entryOf_some hc, hst]; rfl
  have hptr : ∀ l f, s.entryOf l = some f → f.actor.ptr < s.actors.length := by
    intro l f hf
    obtain ⟨d, hd, hdf⟩ := Option.bind_eq_some_iff.mp hf
    obtain ⟨_, -, hfit⟩ := hi.holds l d hd
    obtain ⟨a, -, -, ha, -⟩ := hfit.acts hdf
    exact (List.getElem?_eq_some_iff.mp ha).1
  rw [setStage_eq (s := s.setActors (s.actors ++ _)) hc]
  refine ⟨hi.set (List.getElem?_eq_some_iff.mp hc).1 (.refl hh)
    (.acting rfl rfl rfl (List.getElem?_concat_length ..) rfl nofun ⟨rfl, rfl⟩)
    (fun l f _ hf => List.getElem?_append_left (hptr l f hf)) ?_ ?_, fun _ _ => .refl⟩
  · rintro e l f he - hf heq
    cases he
    exact absurd (hptr l f hf) (by rw [← heq]; exact lt_irrefl _)
  · intro p a ha
    by_cases hp : p < s.actors.length
    · dsimp only [setActors] at ha
      rw [List.getElem?_append_left hp] at ha
      obtain ⟨l, f, hf, hactor⟩ := hi.owned p a ha
      refine .inr ⟨l, f, fun hl => ?_, hf, hactor⟩
      rw [hl, hnone] at hf
      cases hf
    · have hlen := (List.getElem?_eq_some_iff.mp ha).1
      obtain rfl : p = s.actors.length := by
        simp only [setActors, List.length_append, List.length_singleton] at hlen
        omega
      dsimp only [setActors] at ha
      rw [List.getElem?_concat_length] at ha
      cases ha
      exact .inl ⟨_, rfl, rfl⟩

theorem Inv.creator_acting {input : CreatorInput} (hi : Inv limit s)
    (hc : s.creations[k]? = some c) (he : c.stage.entry = some e) :
    Advances limit k s (s.creator limit k input) := by
  obtain ⟨h, hh, hf⟩ := hi.holds k c hc
  obtain ⟨a, hk, hn, ha, hid, hcomp, hp⟩ := hf.acts he
  have hruns := hi.runs ((entryOf_some hc).trans he)
  -- every later stage keeps the entry and the actor
  have hstage : ∀ {st : Stage} {r : Registry} {h' : Holding}, st.entry = some e →
      Registry.Moves limit k h' s.registry r → st.Permits e a h' →
      Advances limit k s ((s.setRegistry r).setStage k st) := fun hst hr hp =>
    hi.stage hc (hst.trans he.symm) hr (.acting hst hk hn ha hid hcomp hp)
  cases hst : c.stage with
  | reserved | identified _ | releasing _ => rw [hst] at he; cases he
  | started f =>
    rw [hst] at he hp
    cases he
    obtain ⟨ho, rfl⟩ := hp
    simp only [creator, hc, hst]
    by_cases hfail : input.fails = true
    · rw [if_pos hfail]
      exact hstage rfl (.refl hh) ⟨ho, rfl⟩
    rw [if_neg hfail]
    rcases Registry.registerProvisional_spec limit hh hk with ⟨r, hop, hm⟩ | ⟨error, hop⟩
    · rw [hop]
      exact hstage rfl hm ⟨ho, rfl⟩
    · rw [hop]
      exact hstage rfl (.refl hh) ⟨ho, rfl⟩
  | retaining after f =>
    rw [hst] at he hp
    cases he
    simp only [creator, hc, hst]
    cases after with
    | publish => exact hp.elim
    | cleanup =>
      obtain ⟨ho, rfl⟩ := hp
      exact hstage rfl (Registry.retain_identified hi.whole hruns hh hk) ⟨ho, rfl⟩
    | finish =>
      obtain ⟨ho, ⟨rfl, -⟩ | ⟨hd, rfl⟩⟩ := hp
      · rw [Registry.retain_known]
        · exact hstage rfl (.refl hh) ⟨ho, .inl rfl⟩
        · simp [Registry.knows, show s.registry.provisional[e.actor.id]? = some e from
            hh.provisional.get]
      · exact hstage rfl (Registry.retain_nothing hruns hh hk) ⟨ho, .inr ⟨hd, .inr rfl⟩⟩
  | marking after f =>
    rw [hst] at he hp
    cases he
    simp only [creator, hc, hst]
    rw [setStage_eq (s := s.setActors (s.actors.modify e.actor.ptr _)) hc]
    exact ⟨hi.actor hc (by rw [hst]; rfl) rfl (.refl hh) (fun _ => rfl) (.acting rfl hk hn
      ((List.getElem?_modify_eq ..).trans (congrArg _ ha)) hid (fun _ => rfl) hp.marked),
      fun _ _ => .refl⟩
  | loading after f =>
    rw [hst] at he hp
    cases he
    simp only [creator, hc, hst, ha, Option.any_some]
    by_cases hd : a.workerDone = true
    · rw [if_pos hd]
      refine hstage rfl (.refl hh) ?_
      cases after <;> simp_all [Stage.Permits]
    · rw [if_neg hd]
      exact hstage (After.stage_entry ..) (.refl hh) (hp.running (by simpa using hd))
  | completing after f =>
    rw [hst] at he hp
    cases he
    simp only [creator, hc, hst]
    have ho : a.registryOwned = true ∧ a.workerDone = true := by
      cases after with
      | publish | cleanup | finish => exact ⟨hp.1, hp.2.1⟩
    exact hstage (After.stage_entry ..) (Registry.complete_spec hruns hh (hp.completable hk ho.1))
      (After.stage_permits_nothing ho.1 ho.2)
  | publishing f =>
    rw [hst] at he hp
    cases he
    simp only [creator, hc, hst]
    by_cases hfail : input.fails = true
    · rw [if_pos hfail]
      exact hstage rfl (.refl hh) hp
    rw [if_neg hfail]
    obtain ⟨ho, hor⟩ := hp
    rcases Registry.publishName_spec c.cancelled limit hi.whole hh
      (hor.imp (·.1) (·.2)) hn hk with ⟨r, hop, rfl, hm⟩ | hop
    · rw [hop]
      rcases hor with ⟨-, hw⟩ | ⟨-, hnone⟩
      · exact hstage rfl hm ⟨ho, .inl ⟨.inr ⟨e.name, rfl⟩, hw⟩⟩
      · cases hnone
    · rw [hop]
      exact hstage rfl (.refl hh) ⟨ho, hor⟩
  | finished f =>
    simp only [creator, hc, hst]
    exact .refl hi

theorem Inv.creator (hi : Inv limit s) (k : Nat) (input : CreatorInput) :
    Advances limit k s (s.creator limit k input) := by
  cases hc : s.creations[k]? with
  | none => simpa only [Sessions.creator, hc] using .refl hi
  | some c =>
    cases he : c.stage.entry with
    | some e => exact hi.creator_acting hc he
    | none =>
      obtain ⟨h, hh, hf⟩ := hi.holds k c hc
      cases hst : c.stage with
      | reserved => exact hi.creator_reserved hc hst
      | identified sessionId =>
        rw [hst] at hf
        cases hf with
        | acting he' => cases he'
        | identified =>
          simp only [Sessions.creator, hc, hst]
          by_cases hfail : input.fails = true
          · rw [if_pos hfail]
            exact hi.stage hc (by rw [hst]; rfl) (.refl hh) (.releasing sessionId)
          · rw [if_neg hfail]
            exact hi.start input.workingDirectory hc hst hh
      | releasing sessionId =>
        rw [hst] at hf
        simp only [Sessions.creator, hc, hst]
        cases hf with
        | acting he' => cases he'
        | releasingName =>
          exact hi.stage hc (by rw [hst]; rfl) (Registry.releaseCreation_named hh) .abandoned
        | releasing sessionId =>
          exact hi.stage hc (by rw [hst]; rfl) (Registry.releaseCreation_identified hh) .abandoned
      | finished entry => simpa only [Sessions.creator, hc, hst] using .refl hi
      | started | retaining | marking | loading | completing | publishing => rw [hst] at he; cases he

/-! ## Workers -/

theorem set_same {α : Type} {xs : List α} {i : Nat} {x : α} (h : xs[i]? = some x) : xs.set i x = xs := by
  obtain ⟨hi, rfl⟩ := List.getElem?_eq_some_iff.mp h
  exact List.set_getElem_self hi

theorem Inv.worker (hi : Inv limit s) (p : Nat) :
    ∃ k, (∀ a, s.actors[p]? = some a → ∃ e, s.entryOf k = some e ∧ e.actor.ptr = p) ∧
      Advances limit k s (s.worker p) := by
  cases ha : s.actors[p]? with
  | none => exact ⟨0, nofun, by simpa only [Sessions.worker, ha] using .refl hi⟩
  | some a =>
    obtain ⟨k, e, he, hactor⟩ := hi.owned p a ha
    obtain ⟨c, hc, hce⟩ := Option.bind_eq_some_iff.mp he
    obtain ⟨h, hh, hf⟩ := hi.holds k c hc
    obtain ⟨b, hk, hn, hb, hid, hcomp, hp⟩ := hf.acts hce
    obtain rfl : e.actor.ptr = p := by rw [hactor]
    rw [ha] at hb
    cases hb
    have hruns := hi.runs he
    -- the worker moves to `w` while its creator holds `h'`
    have hstep : ∀ {r : Registry} {h' : Holding} {w : Worker},
        Registry.Moves limit k h' s.registry r → (w = .completing → a.registryOwned = true) →
        c.stage.Permits e { a with worker := w } h' →
        Advances limit k s ((s.setRegistry r).setWorker e.actor.ptr w) := by
      intro r h' w hr hw hp'
      refine ⟨?_, hr.others⟩
      have := hi.actor hc hce hce hr (f := fun a => { a with worker := w }) (fun _ => rfl)
        (.acting hce hk hn ((List.getElem?_modify_eq ..).trans (congrArg _ ha)) hid hw hp')
      rwa [set_same hc] at this
    refine ⟨k, fun _ _ => ⟨e, he, rfl⟩, ?_⟩
    cases hw : a.worker with
    | running =>
      simp only [Sessions.worker, ha, hw]
      exact hstep (.refl hh) nofun (hp.worker (by simp) nofun)
    | loading =>
      simp only [Sessions.worker, ha, hw]
      by_cases ho : a.registryOwned = true
      · rw [if_pos ho]
        exact hstep (.refl hh) (fun _ => ho) (hp.worker (by simp) nofun)
      · rw [if_neg ho]
        exact hstep (.refl hh) nofun (hp.worker (by simp) fun _ => by simpa using ho)
    | completing =>
      simp only [Sessions.worker, ha, hw, hid]
      exact hstep (Registry.complete_spec hruns hh (hp.completable hk (hcomp hw))) nofun
        (hp.completed (hcomp hw))
    | finished => simpa only [Sessions.worker, ha, hw] using .refl hi

/-! ## Every step -/

theorem Inv.reserve {name : SessionName} (hi : Inv limit s)
    (hr : Registry.Moves limit s.creations.length (.named name) s.registry r) :
    Inv limit { s with registry := r, creations := s.creations ++ [{ name }] } := by
  have hentry : ∀ l, entryOf { s with registry := r, creations := s.creations ++ [{ name }] } l =
      s.entryOf l := by
    intro l
    rcases lt_trichotomy l s.creations.length with hl | rfl | hl
    · simp [entryOf, List.getElem?_append_left hl]
    · simp [entryOf, Stage.entry]
    · simp [entryOf, hl, Nat.le_of_lt hl]
  refine ⟨fun l d hd => ?_, fun l hl => ?_, fun l m f g hf hg => ?_, fun p a ha => ?_,
    hr.within hi.within⟩
  · rcases lt_trichotomy l s.creations.length with hl | rfl | hl
    · rw [List.getElem?_append_left hl] at hd
      obtain ⟨h, hh, hf⟩ := hi.holds l d hd
      exact ⟨h, hh.congr (hr.others l hl.ne), hf⟩
    · rw [List.getElem?_concat_length] at hd
      cases hd
      exact ⟨_, hr.own, .reserved⟩
    · rw [List.getElem?_eq_none (by simpa using hl)] at hd
      cases hd
  · rw [List.length_append, List.length_singleton] at hl
    exact (hi.fresh l (by omega)).congr (hr.others l (by omega))
  · rw [hentry] at hf hg
    exact hi.apart l m f g hf hg
  · obtain ⟨l, f, hf, hactor⟩ := hi.owned p a ha
    exact ⟨l, f, (hentry l).trans hf, hactor⟩

/-- Whether the registry accepts creations is not part of what anyone holds. -/
theorem Inv.accepting (hi : Inv limit s) (accepting : Bool) :
    Inv limit (s.setRegistry { s.registry with accepting }) :=
  ⟨fun k c hc => by
    obtain ⟨h, hh, hf⟩ := hi.holds k c hc
    exact ⟨h, ⟨hh.byName, hh.reservations, hh.byId, hh.provisional, hh.cleanupOnly⟩, hf⟩,
  fun k hk => by
    have hh := hi.fresh k hk
    exact ⟨hh.byName, hh.reservations, hh.byId, hh.provisional, hh.cleanupOnly⟩,
  hi.apart, hi.owned, hi.within⟩

theorem Inv.rename (hi : Inv limit s) (sessionId : SessionId) (newName : SessionName) :
    (s.registry.rename sessionId newName).2 = s.registry ∨
    ∃ e, s.registry.byId[sessionId]? = some e ∧ Advances limit e.ownership s
      (s.setRegistry (s.registry.rename sessionId newName).2) := by
  rcases Registry.rename_spec limit sessionId newName hi.whole with ⟨current, hg, hlive, hm⟩ | hsame
  · obtain ⟨e, he, -⟩ := hi.entry fun h hh => .inl (hh.of_live hg rfl).1
    obtain ⟨c, hc, hce⟩ := Option.bind_eq_some_iff.mp he
    obtain ⟨h, hh, hf⟩ := hi.holds _ c hc
    obtain ⟨rfl, -⟩ := hh.of_live hg rfl
    have := hi.advance hc rfl hm hf.rename (fun p a ha => ⟨a, ha, rfl⟩) fun _ _ => rfl
    rw [set_same hc] at this
    exact .inr ⟨current, hg, this, hm.others⟩
  · exact .inl hsame

def actsFor (s : Sessions) : RegistryEvent → Nat → Prop
  | .reserveName .., k => k = s.creations.length
  | .creator creation _, k => k = creation
  | .worker ptr, k => ∃ e, s.entryOf k = some e ∧ e.actor.ptr = ptr
  | .rename sessionId _, k => ∃ e, s.registry.byId[sessionId]? = some e ∧ e.ownership = k
  | .beginShutdown _, _ | .cancel _, _ | .resumeAfterFailedShutdown, _ => False

theorem Inv.cancel (hi : Inv limit s) (k : Nat) : Inv limit (s.step limit (.cancel k)) := by
  cases hc : s.creations[k]? with
  | none => simpa [Sessions.step, List.modify_eq_set_getElem?, hc] using hi
  | some c =>
    obtain ⟨h, hh, hf⟩ := hi.holds k c hc
    have hset : Inv limit ⟨s.registry, s.creations.set k { c with cancelled := true }, s.actors⟩ :=
      hi.advance hc rfl (.refl hh) hf (fun p a ha => ⟨a, ha, rfl⟩) fun _ _ => rfl
    simpa [Sessions.step, List.modify_eq_set_getElem?, hc] using hset

theorem untouched_accepting {accepting : Bool} :
    r.Untouched k { r with accepting } := ⟨.refl, .refl, .refl, .refl, rfl⟩

theorem Inv.step (hi : Inv limit s) (event : RegistryEvent) :
    Inv limit (s.step limit event) ∧
      ∀ l, ¬ s.actsFor event l → s.registry.Untouched l (s.step limit event).registry := by
  cases event with
  | reserveName name waitForStarting =>
    rcases Registry.reserveName_spec waitForStarting limit name (hi.fresh _ le_rfl) with
      ⟨r, hop, hm⟩ | ⟨result, hop, hnot⟩
    · simp only [Sessions.step, hop]
      exact ⟨hi.reserve hm, hm.others⟩
    · simp only [Sessions.step, hop]
      exact ⟨hi, fun _ _ => .refl⟩
  | creator k input => exact ⟨(hi.creator k input).inv, (hi.creator k input).others⟩
  | worker ptr =>
    obtain ⟨k, hk, hadv⟩ := hi.worker ptr
    refine ⟨hadv.inv, fun l hl => ?_⟩
    cases ha : s.actors[ptr]? with
    | none => simpa only [Sessions.step, Sessions.worker, ha] using .refl
    | some a => exact hadv.others l fun hlk => hl (hlk ▸ hk a ha)
  | rename sessionId newName =>
    rcases hi.rename sessionId newName with hsame | ⟨e, hg, hadv⟩
    · simp only [Sessions.step, hsame]
      exact ⟨hi, fun _ _ => .refl⟩
    · exact ⟨hadv.inv, fun l hl => hadv.others l fun hlk => hl ⟨e, hg, hlk.symm⟩⟩
  | beginShutdown approved =>
    simp only [Sessions.step, Registry.beginShutdown]
    split
    · exact ⟨hi, fun _ _ => .refl⟩
    · exact ⟨hi.accepting false, fun _ _ => untouched_accepting⟩
  | cancel k => exact ⟨hi.cancel k, fun _ _ => .refl⟩
  | resumeAfterFailedShutdown => exact ⟨hi.accepting true, fun _ _ => untouched_accepting⟩

theorem run_inv (limit : Nat) (events : List RegistryEvent) : Inv limit (run limit events) :=
  List.foldlRecOn events _ (inv_init limit) fun _ hi event _ => (hi.step event).1

/-! ## Consistency -/

def Registered (r : Registry) (sessionId : SessionId) (e : SessionEntry) : Prop :=
  r.byId[sessionId]? = some e ∨ r.provisional[sessionId]? = some e

/-- The registry has nothing of the token. -/
structure Absent (r : Registry) (k : Nat) : Prop where
  byName : ∀ (name : SessionName) slot, r.byName[name]? = some slot → slot.ownership ≠ k
  reservations : ∀ (sessionId : SessionId) l, r.reservations[sessionId]? = some l → l ≠ k
  byId : ∀ (sessionId : SessionId) e, r.byId[sessionId]? = some e → e.ownership ≠ k
  provisional : ∀ (sessionId : SessionId) e, r.provisional[sessionId]? = some e → e.ownership ≠ k
  cleanupOnly : ∀ e ∈ r.cleanupOnly, e.ownership ≠ k

def finished (s : Sessions) (e : SessionEntry) : Bool :=
  s.actors[e.actor.ptr]?.any (·.worker = .finished)

structure Consistent (limit : Nat) (s : Sessions) : Prop where
  /-- A live name is a live session of the same token. -/
  live : ∀ (name : SessionName) (sessionId : SessionId) k,
    s.registry.byName[name]? = some (.live sessionId k) ↔
      ∃ e, s.registry.byId[sessionId]? = some e ∧ e.name = name ∧ e.ownership = k
  /-- A provisional session's name is starting, -/
  provisional : ∀ (sessionId : SessionId) e, s.registry.provisional[sessionId]? = some e →
    s.registry.byName[e.name]? = some (.starting e.ownership (some sessionId))
  /-- and stays provisional for as long as it is. -/
  starting : ∀ (name : SessionName) k sessionId,
    s.registry.byName[name]? = some (.starting k (some sessionId)) →
    (∃ e, s.registry.provisional[sessionId]? = some e ∧ e.name = name ∧ e.ownership = k) ∨
      ∃ c, s.creations[k]? = some c ∧ c.stage.unregistered = true
  /-- What is kept for cleanup alone has stopped and owns no name. -/
  cleanup : ∀ e ∈ s.registry.cleanupOnly, s.actors[e.actor.ptr]?.any Actor.workerDone = true ∧
    ∀ (name : SessionName) slot, s.registry.byName[name]? = some slot → slot.ownership ≠ e.ownership
  names : ∀ sessionId sessionId' e e', Registered s.registry sessionId e →
    Registered s.registry sessionId' e' → e.name = e'.name → sessionId = sessionId' ∧ e = e'
  /-- Every session has a reservation, and those are limited. -/
  sessions : s.registry.byId.size + s.registry.provisional.size ≤ s.registry.reservations.size
  limited : s.registry.reservations.size ≤ limit
  /-- An event changes nothing of a token it does not act for. -/
  isolated : ∀ event l, ¬ s.actsFor event l →
    s.registry.Untouched l (s.step limit event).registry
  removed : ∀ (k : Nat) c entry, s.creations[k]? = some c → c.stage = .finished entry →
    (∀ e, entry = some e → s.finished e = true) → Absent s.registry k

section Consistent

variable {r : Registry} {h : Holding} {name : SessionName} {sessionId : SessionId}

theorem Inv.live (hi : Inv limit s) :
    s.registry.byName[name]? = some (.live sessionId k) ↔
      ∃ e, s.registry.byId[sessionId]? = some e ∧ e.name = name ∧ e.ownership = k := by
  obtain ⟨h, hh⟩ := hi.whole k
  constructor
  · intro hg
    have hslot := hh.byName.eq_of_get hg rfl
    cases h with
    | live e => cases hslot; exact ⟨e, hh.byId.get, rfl, hh.byId.owner⟩
    | _ => cases hslot
  · rintro ⟨e, hg, rfl, rfl⟩
    obtain ⟨rfl, rfl⟩ := hh.of_live hg rfl
    exact hh.byName.get

theorem Inv.provisional (hi : Inv limit s) (hg : s.registry.provisional[sessionId]? = some e) :
    s.registry.byName[e.name]? = some (.starting e.ownership (some sessionId)) := by
  obtain ⟨h, hh⟩ := hi.whole e.ownership
  obtain ⟨rfl, rfl⟩ := hh.of_provisional hg rfl
  exact hh.byName.get

theorem Inv.starting (hi : Inv limit s)
    (hg : s.registry.byName[name]? = some (.starting k (some sessionId))) :
    (∃ e, s.registry.provisional[sessionId]? = some e ∧ e.name = name ∧ e.ownership = k) ∨
      ∃ c, s.creations[k]? = some c ∧ c.stage.unregistered = true := by
  cases hc : s.creations[k]? with
  | none =>
    cases (hi.fresh k (List.getElem?_eq_none_iff.mp hc)).byName.eq_of_get hg rfl
  | some c =>
    obtain ⟨h, hh, hf⟩ := hi.holds k c hc
    have hslot := hh.byName.eq_of_get hg rfl
    cases h with
    | provisional e => cases hslot; exact .inl ⟨e, hh.provisional.get, rfl, hh.provisional.owner⟩
    | identified n i =>
      refine .inr ⟨c, rfl, ?_⟩
      generalize c.stage = stage at hf
      cases hf with
      | acting _ _ _ _ _ _ hp =>
        unfold Stage.Permits at hp
        split at hp <;> simp_all [Stage.unregistered]
      | _ => rfl
    | _ => cases hslot

theorem Inv.cleanup (hi : Inv limit s) (he : e ∈ s.registry.cleanupOnly) :
    s.actors[e.actor.ptr]?.any Actor.workerDone = true ∧
    ∀ (name : SessionName) slot, s.registry.byName[name]? = some slot →
      slot.ownership ≠ e.ownership := by
  cases hc : s.creations[e.ownership]? with
  | none => cases (hi.fresh _ (List.getElem?_eq_none_iff.mp hc)).of_cleanup he rfl
  | some c =>
    obtain ⟨h, hh, hf⟩ := hi.holds _ c hc
    obtain rfl := hh.of_cleanup he rfl
    refine ⟨?_, Share.none_iff.mp hh.byName⟩
    obtain ⟨f, hf', hactor⟩ := hf.entry (.inr (.inr rfl))
    obtain ⟨a, -, -, ha, -, -, hp⟩ := hf.acts hf'
    rw [hactor, ha]
    exact hp.stopped

theorem Registered.held (he : Registered r sessionId e) (hh : r.Holds e.ownership h) :
    e.actor.id = sessionId ∧ (h = .live e ∨ h = .provisional e) ∧
      ∃ slot, r.byName[e.name]? = some slot ∧ slot.ownership = e.ownership := by
  rcases he with hg | hg
  · obtain ⟨rfl, hid⟩ := hh.of_live hg rfl
    exact ⟨hid, .inl rfl, _, hh.byName.get, rfl⟩
  · obtain ⟨rfl, hid⟩ := hh.of_provisional hg rfl
    exact ⟨hid, .inr rfl, _, hh.byName.get, rfl⟩

theorem Inv.one_session {sessionId' : SessionId} {e' : SessionEntry} (hi : Inv limit s)
    (he : Registered s.registry sessionId e) (he' : Registered s.registry sessionId' e')
    (hk : e.ownership = e'.ownership) : sessionId = sessionId' ∧ e = e' := by
  obtain ⟨h, hh⟩ := hi.whole e.ownership
  obtain ⟨rfl, hshape, -⟩ := he.held hh
  obtain ⟨rfl, hshape', -⟩ := he'.held (hk ▸ hh)
  rcases hshape with rfl | rfl
  · rcases hshape' with heq | heq
    · cases heq; exact ⟨rfl, rfl⟩
    · cases heq
  · rcases hshape' with heq | heq
    · cases heq
    · cases heq; exact ⟨rfl, rfl⟩

theorem Inv.names {sessionId' : SessionId} {e' : SessionEntry} (hi : Inv limit s)
    (he : Registered s.registry sessionId e) (he' : Registered s.registry sessionId' e')
    (hn : e.name = e'.name) : sessionId = sessionId' ∧ e = e' := by
  obtain ⟨h, hh⟩ := hi.whole e.ownership
  obtain ⟨h', hh'⟩ := hi.whole e'.ownership
  obtain ⟨-, -, slot, hg, hk⟩ := he.held hh
  obtain ⟨-, -, slot', hg', hk'⟩ := he'.held hh'
  rw [hn, hg'] at hg
  cases hg
  exact hi.one_session he he' (hk.symm.trans hk')

theorem Inv.not_both {e' : SessionEntry} (hi : Inv limit s)
    (hg : s.registry.byId[sessionId]? = some e) :
    s.registry.provisional[sessionId]? ≠ some e' := by
  intro hg'
  have hk := hi.whole.reserved_live hg
  rw [hi.whole.reserved_provisional hg', Option.some_inj] at hk
  obtain ⟨h, hh⟩ := hi.whole e.ownership
  have hlive := (hh.of_live hg rfl).1
  rw [(hh.of_provisional hg' hk).1] at hlive
  cases hlive

theorem absent_of_holds (hh : r.Holds k .nothing) : Absent r k :=
  ⟨Share.none_iff.mp hh.byName, Share.none_iff.mp hh.reservations, Share.none_iff.mp hh.byId,
    Share.none_iff.mp hh.provisional, fun _ he hk => nomatch hh.of_cleanup he hk⟩

theorem Inv.removed {entry : Option SessionEntry} (hi : Inv limit s)
    (hc : s.creations[k]? = some c) (hst : c.stage = .finished entry)
    (hfin : ∀ e, entry = some e → s.finished e = true) : Absent s.registry k := by
  obtain ⟨h, hh, hf⟩ := hi.holds k c hc
  have hnone : h = .nothing := by
    rw [hst] at hf
    cases entry with
    | none =>
      cases hf with
      | acting he => cases he
      | abandoned => rfl
    | some e =>
      obtain ⟨a, -, -, ha, -, -, hp⟩ := hf.acts rfl
      have hw : a.worker = .finished := by simpa [finished, ha] using hfin e rfl
      rcases hp.2 with ⟨-, hnot⟩ | ⟨-, hnone⟩
      · exact absurd hw hnot
      · exact hnone
  subst hnone
  exact absent_of_holds hh

end Consistent

theorem session_registry_consistency (limit : Nat) (events : List RegistryEvent) :
    Consistent limit (run limit events) := by
  have hi := run_inv limit events
  refine ⟨fun _ _ _ => hi.live, fun _ _ => hi.provisional, fun _ _ _ => hi.starting,
    fun _ => hi.cleanup, fun _ _ _ _ => hi.names, ?_, hi.within, fun event => (hi.step event).2,
    fun _ _ _ => hi.removed⟩
  exact OrdMap.size_add_le_of_keys (fun _ _ hg => ⟨_, hi.whole.reserved_live hg⟩)
    (fun _ _ hg => ⟨_, hi.whole.reserved_provisional hg⟩) fun _ _ _ => hi.not_both

/-- A creator's six steps from a reserved name to a published session. -/
def creates (k : Nat) : List RegistryEvent := List.replicate 6 (.creator k {})

-- the session is live, then renamed, and its worker's end leaves nothing
example : (run 4 (.reserveName "work" false :: creates 0)).registry.byName["work"]? =
    some (.live 0 0) := by decide +kernel

example : ((run 4 (.reserveName "work" false :: creates 0 ++
    [.rename 0 "play", .worker 0, .worker 0, .worker 0])).registry.byName.isEmpty &&
  (run 4 (.reserveName "work" false :: creates 0 ++
    [.rename 0 "play", .worker 0, .worker 0, .worker 0])).registry.reservations.isEmpty) = true := by
  decide +kernel

end Sessions

end Voytty.Daemon
