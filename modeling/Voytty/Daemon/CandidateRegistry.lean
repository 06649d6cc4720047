import Mathlib.Data.Prod.Lex
import Voytty.Core.Domain
import Voytty.Lib.OrdMap
import Voytty.Lib.Transition

/-!
# Duplicate connection arbitration

Two daemons may dial each other at once, and each dial becomes a candidate of the
slot for its peer. Both sides know a candidate by the same key and keep the
ready candidate with the smallest one. `CandidateRegistry` is the slot's table:
candidates enter it before their handshake and are marked ready after it.
-/

namespace Voytty.Daemon

open Voytty.Lib

variable {α β : Type}

abbrev ConnectionAttemptId := Nat

abbrev ConnectionCandidateKey := DeviceId ×ₗ ConnectionAttemptId

def ConnectionCandidateKey.new (initiator : DeviceId) (attempt : ConnectionAttemptId) :
    ConnectionCandidateKey := toLex (initiator, attempt)

def designatedPrimary (keys : List ConnectionCandidateKey) : Option ConnectionCandidateKey :=
  keys.min?

structure CandidateRegistry (α : Type) where
  entries : OrdMap ConnectionCandidateKey α := ∅
  primary : Option ConnectionCandidateKey := none

inductive CandidateDecision (α : Type) where
  | promoted (losers : List α)
  | lost (value : α)
  | wait
  | missing
  deriving DecidableEq, Repr

def CandidateDecision.returned : CandidateDecision α → List α
  | .promoted losers => losers
  | .lost value => [value]
  | .wait | .missing => []

namespace CandidateRegistry

def register (r : CandidateRegistry α) (key : ConnectionCandidateKey) (value : α) :
    Except α Unit × CandidateRegistry α :=
  if r.entries.contains key then (.error value, r)
  else (.ok (), { r with entries := r.entries.insert key value })

def removeEntry (r : CandidateRegistry α) (key : ConnectionCandidateKey) :
    Option α × CandidateRegistry α :=
  (r.entries[key]?, { r with entries := r.entries.erase key })

def removeEntries (r : CandidateRegistry α) :
    List ConnectionCandidateKey → List α × CandidateRegistry α
  | [] => ([], r)
  | key :: keys =>
    let (value, r) := r.removeEntry key
    let (values, r) := r.removeEntries keys
    (value.toList ++ values, r)

def remove (r : CandidateRegistry α) (key : ConnectionCandidateKey) :
    Option α × CandidateRegistry α :=
  let r := if r.primary = some key then { r with primary := none } else r
  r.removeEntry key

def markReadyAndDecide (r : CandidateRegistry α) (key : ConnectionCandidateKey) :
    CandidateDecision α × CandidateRegistry α :=
  if !r.entries.contains key then (.missing, r)
  else if r.primary.any (· < key) then
    let (value, r) := r.remove key
    (value.elim .missing .lost, r)
  else if designatedPrimary r.entries.keys ≠ some key then (.wait, r)
  else
    let r := { r with primary := some key }
    let (losers, r) := r.removeEntries (r.entries.keys.filter (· ≠ key))
    (.promoted losers, r)

def takeAll (r : CandidateRegistry α) : List α × CandidateRegistry α :=
  (r.entries.toList.map (·.2), {})

/-! ## What each operation does -/

def values (r : CandidateRegistry α) : List α := r.entries.toList.map (·.2)

/-- `key` is held and no smaller key is. -/
def IsMinimum (r : CandidateRegistry α) (key : ConnectionCandidateKey) : Prop :=
  key ∈ r.entries ∧ ∀ other ∈ r.entries, key ≤ other

variable {r : CandidateRegistry α} {key other : ConnectionCandidateKey}

theorem designatedPrimary_eq_some :
    designatedPrimary r.entries.keys = some key ↔ r.IsMinimum key := by
  simp only [designatedPrimary, List.min?_eq_some_iff, OrdMap.mem_keys, IsMinimum]

instance (r : CandidateRegistry α) (key : ConnectionCandidateKey) : Decidable (r.IsMinimum key) :=
  decidable_of_iff _ designatedPrimary_eq_some

theorem mem_removeEntry :
    other ∈ (r.removeEntry key).2.entries ↔ other ≠ key ∧ other ∈ r.entries :=
  OrdMap.mem_erase

theorem mem_removeEntries :
    ∀ (keys : List ConnectionCandidateKey) (r : CandidateRegistry α),
      other ∈ (r.removeEntries keys).2.entries ↔ other ∉ keys ∧ other ∈ r.entries
  | [], r => by simp [removeEntries]
  | key :: keys, r => by
    rw [removeEntries, mem_removeEntries keys, mem_removeEntry, List.mem_cons, not_or]
    tauto

theorem removeEntries_primary :
    ∀ (keys : List ConnectionCandidateKey) (r : CandidateRegistry α),
      (r.removeEntries keys).2.primary = r.primary
  | [], _ => rfl
  | key :: keys, r => by
    rw [removeEntries, removeEntries_primary keys]
    rfl

theorem removeEntry_values (r : CandidateRegistry α) (key : ConnectionCandidateKey) :
    r.values.Perm ((r.removeEntry key).1.toList ++ (r.removeEntry key).2.values) := by
  cases h : r.entries[key]? with
  | some value =>
    simpa [values, removeEntry, h] using (OrdMap.toList_erase_perm h).map (·.2)
  | none =>
    have hsame : ∀ other : ConnectionCandidateKey,
        r.entries[other]? = (r.entries.erase key)[other]? := by
      intro other
      rw [OrdMap.get_erase]
      split
      · subst_vars
        exact h
      · rfl
    simpa [values, removeEntry, h] using (OrdMap.toList_perm hsame).map (·.2)

theorem removeEntries_values :
    ∀ (keys : List ConnectionCandidateKey) (r : CandidateRegistry α),
      r.values.Perm ((r.removeEntries keys).1 ++ (r.removeEntries keys).2.values)
  | [], r => .refl _
  | key :: keys, r => by
    simp only [removeEntries, List.append_assoc]
    exact (r.removeEntry_values key).trans
      ((removeEntries_values keys (r.removeEntry key).2).append_left _)

theorem remove_values (r : CandidateRegistry α) (key : ConnectionCandidateKey) :
    r.values.Perm ((r.remove key).1.toList ++ (r.remove key).2.values) := by
  unfold remove
  split
  · exact removeEntry_values { r with primary := none } key
  · exact removeEntry_values r key

theorem remove_fst (r : CandidateRegistry α) (key : ConnectionCandidateKey) :
    (r.remove key).1 = r.entries[key]? := by
  unfold remove removeEntry
  split <;> rfl

theorem mem_remove :
    other ∈ (r.remove key).2.entries ↔ other ≠ key ∧ other ∈ r.entries := by
  unfold remove
  split <;> exact mem_removeEntry

theorem remove_primary (r : CandidateRegistry α) (key : ConnectionCandidateKey) :
    (r.remove key).2.primary = if r.primary = some key then none else r.primary := by
  unfold remove removeEntry
  split <;> rfl

inductive Decides (r : CandidateRegistry α) (key : ConnectionCandidateKey) :
    CandidateDecision α × CandidateRegistry α → Prop where
  | missing (h : key ∉ r.entries) : Decides r key (.missing, r)
  | lost {primary : ConnectionCandidateKey} {value : α} (held : r.entries[key]? = some value)
      (chosen : r.primary = some primary) (smaller : primary < key) :
      Decides r key (.lost value, (r.remove key).2)
  | wait {other : ConnectionCandidateKey} (held : key ∈ r.entries)
      (below : other ∈ r.entries) (smaller : other < key)
      (undecided : ∀ primary, r.primary = some primary → key ≤ primary) : Decides r key (.wait, r)
  | promoted {losers : List α} {r' : CandidateRegistry α} (minimum : r.IsMinimum key)
      (undecided : ∀ primary, r.primary = some primary → key ≤ primary)
      (chosen : r'.primary = some key) (only : ∀ other, other ∈ r'.entries ↔ other = key)
      (returned : r.values.Perm (losers ++ r'.values)) : Decides r key (.promoted losers, r')

theorem markReadyAndDecide_decides (r : CandidateRegistry α) (key : ConnectionCandidateKey) :
    r.Decides key (r.markReadyAndDecide key) := by
  unfold markReadyAndDecide
  split
  case isTrue h => exact .missing fun hin => by simp [Std.TreeMap.mem_iff_contains.mp hin] at h
  case isFalse h =>
  have hmem : key ∈ r.entries := Std.TreeMap.mem_iff_contains.mpr (by simpa using h)
  split
  case isTrue hlost =>
    obtain ⟨value, hvalue⟩ := OrdMap.mem_iff_get.mp hmem
    obtain ⟨primary, hprimary, hlt⟩ := (Option.any_eq_true _ _).mp hlost
    simp only [remove_fst, hvalue]
    exact .lost hvalue hprimary (by simpa using hlt)
  case isFalse hlost =>
  have hundecided : ∀ primary, r.primary = some primary → key ≤ primary := by
    intro primary hprimary
    simpa [hprimary] using hlost
  split
  case isTrue hwait =>
    rw [ne_eq, designatedPrimary_eq_some, IsMinimum, not_and] at hwait
    have hsmaller := hwait hmem
    push Not at hsmaller
    obtain ⟨other, hbelow, hlt⟩ := hsmaller
    exact .wait hmem hbelow hlt hundecided
  case isFalse hmin =>
    rw [ne_eq, not_not, designatedPrimary_eq_some] at hmin
    refine .promoted hmin hundecided (by simp [removeEntries_primary]) (fun other => ?_)
      (removeEntries_values _ { r with primary := some key })
    rw [mem_removeEntries, List.mem_filter, OrdMap.mem_keys]
    constructor
    · rintro ⟨hout, hin⟩
      by_contra hne
      exact hout ⟨hin, by simpa using hne⟩
    · rintro rfl
      exact ⟨by simp, hmem⟩

theorem Decides.values {out : CandidateDecision α × CandidateRegistry α} (hd : r.Decides key out) :
    r.values.Perm (out.1.returned ++ out.2.values) := by
  cases hd with
  | missing | wait => exact .refl _
  | lost held chosen smaller =>
    have hout := r.remove_values key
    rwa [remove_fst, held] at hout
  | promoted minimum undecided chosen only returned => exact returned

/-- The primary is a candidate of the registry. -/
def PrimaryHeld (r : CandidateRegistry α) : Prop := ∀ key, r.primary = some key → key ∈ r.entries

theorem PrimaryHeld.insert (h : r.PrimaryHeld) (key : ConnectionCandidateKey) (value : α) :
    PrimaryHeld { r with entries := r.entries.insert key value } :=
  fun primary hp => OrdMap.mem_insert.mpr (.inr (h primary hp))

theorem PrimaryHeld.remove (h : r.PrimaryHeld) (key : ConnectionCandidateKey) :
    (r.remove key).2.PrimaryHeld := by
  intro other ho
  rw [remove_primary] at ho
  split at ho
  case isTrue => cases ho
  case isFalse hne => exact mem_remove.mpr ⟨by rintro rfl; exact hne ho, h other ho⟩

theorem PrimaryHeld.decides (h : r.PrimaryHeld) {out : CandidateDecision α × CandidateRegistry α}
    (hd : r.Decides key out) : out.2.PrimaryHeld := by
  cases hd with
  | missing | wait => exact h
  | lost => exact h.remove key
  | promoted minimum undecided chosen only returned =>
    exact fun other ho => (only other).mpr (Option.some.inj (ho.symm.trans chosen))

end CandidateRegistry

/-! ## Runs -/

inductive CandidateEvent (α : Type) where
  | register (key : ConnectionCandidateKey) (value : α)
  | ready (key : ConnectionCandidateKey)
  | remove (key : ConnectionCandidateKey)
  | takeAll

/-- The registry with the values that were registered and those that came back. -/
structure Arbitration (α : Type) where
  registry : CandidateRegistry α := {}
  registered : List α := []
  returned : List α := []

namespace Arbitration

def step (s : Arbitration α) : CandidateEvent α → Arbitration α
  | .register key value =>
    match s.registry.register key value with
    | (.ok (), r) => { s with registry := r, registered := value :: s.registered }
    | (.error _, r) => { s with registry := r }
  | .ready key =>
    let (decision, r) := s.registry.markReadyAndDecide key
    { s with registry := r, returned := decision.returned ++ s.returned }
  | .remove key =>
    let (value, r) := s.registry.remove key
    { s with registry := r, returned := value.toList ++ s.returned }
  | .takeAll =>
    let (values, r) := s.registry.takeAll
    { s with registry := r, returned := values ++ s.returned }

def run (events : List (CandidateEvent α)) : Arbitration α := events.foldl step {}

/-- The primary is a candidate of the registry, and each value that was registered is held
or came back, once. -/
structure Accounted (s : Arbitration α) : Prop where
  primary : s.registry.PrimaryHeld
  values : s.registered.Perm (s.registry.values ++ s.returned)

theorem step_register (s : Arbitration α) (key : ConnectionCandidateKey) (value : α) :
    key ∈ s.registry.entries ∧ s.step (.register key value) = s ∨
    s.registry.entries[key]? = none ∧ s.step (.register key value) =
      { s with
        registry := { s.registry with entries := s.registry.entries.insert key value }
        registered := value :: s.registered } := by
  by_cases hk : s.registry.entries.contains key
  · exact .inl ⟨Std.TreeMap.mem_iff_contains.mpr hk, by simp [step, CandidateRegistry.register, hk]⟩
  · refine .inr ⟨OrdMap.not_mem_iff_get.mp (mt Std.TreeMap.mem_iff_contains.mp hk), ?_⟩
    simp [step, CandidateRegistry.register, hk]

theorem returned_perm {held held' out returned registered : List α}
    (h : registered.Perm (held ++ returned)) (hout : held.Perm (out ++ held')) :
    registered.Perm (held' ++ (out ++ returned)) := by
  refine h.trans ((hout.append_right returned).trans ?_)
  rw [List.append_assoc]
  exact List.perm_append_comm_assoc out held' returned

theorem Accounted.step {s : Arbitration α} (h : s.Accounted) (event : CandidateEvent α) :
    (s.step event).Accounted := by
  cases event with
  | register key value =>
    rcases s.step_register key value with ⟨-, hs⟩ | ⟨hfree, hs⟩ <;> rw [hs]
    · exact h
    · have hvalues := (OrdMap.toList_insert_perm (v := value) hfree).map Prod.snd
      exact ⟨h.primary.insert key value, (h.values.cons value).trans (hvalues.symm.append_right s.returned)⟩
  | ready key =>
    have hd := s.registry.markReadyAndDecide_decides key
    exact ⟨h.primary.decides hd, returned_perm h.values hd.values⟩
  | remove key =>
    exact ⟨h.primary.remove key, returned_perm h.values (s.registry.remove_values key)⟩
  | takeAll =>
    have hout : s.registry.values.Perm (s.registry.values ++ []) := by rw [List.append_nil]
    exact ⟨nofun, returned_perm h.values hout⟩

theorem run_accounted (events : List (CandidateEvent α)) : (run events).Accounted :=
  List.foldlRecOn events step ⟨nofun, .nil⟩ fun _ h event _ => h.step event

/-! ## Agreement -/

def registeredKeys (events : List (CandidateEvent α)) : List ConnectionCandidateKey :=
  events.filterMap fun
    | .register key _ => some key
    | _ => none

theorem registeredKeys_register (key : ConnectionCandidateKey) (value : α)
    (events : List (CandidateEvent α)) :
    registeredKeys (.register key value :: events) = key :: registeredKeys events := rfl

/-- One side's view of the candidates `keys`: each is registered once and asked after that,
and may be asked any number of times; none is removed. -/
structure Presents (keys : Finset ConnectionCandidateKey) (events : List (CandidateEvent α)) :
    Prop where
  once : (registeredKeys events).Nodup
  registered : (registeredKeys events).toFinset = keys
  asked : ∀ key ∈ keys, ∃ before after,
    events = before ++ .ready key :: after ∧ key ∈ registeredKeys before
  kept : ∀ event ∈ events, event ≠ .takeAll ∧ ∀ key, event ≠ .remove key

section Minimum

variable {m key : ConnectionCandidateKey} {s : Arbitration α} {event : CandidateEvent α}

theorem mem_of_step (h : key ∈ (s.step event).registry.entries) :
    key ∈ s.registry.entries ∨ ∃ value, event = .register key value := by
  cases event with
  | register k value =>
    rcases s.step_register k value with ⟨-, hs⟩ | ⟨-, hs⟩ <;> rw [hs] at h
    · exact .inl h
    · rcases OrdMap.mem_insert.mp h with rfl | h
      · exact .inr ⟨value, rfl⟩
      · exact .inl h
  | ready k =>
    have hd := s.registry.markReadyAndDecide_decides k
    simp only [step] at h
    generalize s.registry.markReadyAndDecide k = out at hd h
    cases hd with
    | missing | wait => exact .inl h
    | lost => exact .inl (CandidateRegistry.mem_remove.mp h).2
    | promoted minimum undecided chosen only returned =>
      obtain rfl := (only key).mp h
      exact .inl minimum.1
  | remove k => exact .inl (CandidateRegistry.mem_remove.mp h).2
  | takeAll => simp [step, CandidateRegistry.takeAll] at h

/-- An event that registers nothing below `m` and removes nothing. -/
def Proper (m : ConnectionCandidateKey) : CandidateEvent α → Prop
  | .register key _ => m ≤ key
  | .ready _ => True
  | .remove _ | .takeAll => False

/-- No candidate of the registry, and so no primary, is smaller than `m`. -/
structure Bounded (m : ConnectionCandidateKey) (s : Arbitration α) : Prop extends
    Accounted s where
  bound : ∀ key ∈ s.registry.entries, m ≤ key

theorem Bounded.step (h : Bounded m s) (hp : Proper m event) : Bounded m (s.step event) := by
  refine ⟨h.toAccounted.step event, fun key hk => ?_⟩
  rcases mem_of_step hk with hk | ⟨value, rfl⟩
  · exact h.bound key hk
  · exact hp

theorem Bounded.held (h : Bounded m s) (hp : Proper m event) (hm : m ∈ s.registry.entries) :
    m ∈ (s.step event).registry.entries := by
  cases event with
  | register k value =>
    rcases s.step_register k value with ⟨-, hs⟩ | ⟨-, hs⟩ <;> rw [hs]
    · exact hm
    · exact OrdMap.mem_insert.mpr (.inr hm)
  | ready k =>
    have hd := s.registry.markReadyAndDecide_decides k
    simp only [Arbitration.step]
    generalize s.registry.markReadyAndDecide k = out at hd
    cases hd with
    | missing | wait => exact hm
    | lost held chosen smaller =>
      have hlt := (h.bound _ (h.primary _ chosen)).trans_lt smaller
      exact CandidateRegistry.mem_remove.mpr ⟨hlt.ne, hm⟩
    | promoted minimum undecided chosen only returned =>
      exact (only m).mpr ((h.bound k minimum.1).antisymm (minimum.2 m hm))
  | remove | takeAll => exact hp.elim

theorem Bounded.ready (h : Bounded m s) (hm : m ∈ s.registry.entries) :
    (s.step (.ready m)).registry.primary = some m := by
  have hd := s.registry.markReadyAndDecide_decides m
  simp only [Arbitration.step]
  generalize s.registry.markReadyAndDecide m = out at hd
  cases hd with
  | missing hout => exact absurd hm hout
  | lost held chosen smaller => exact absurd (h.bound _ (h.primary _ chosen)) smaller.not_ge
  | wait held below smaller => exact absurd (h.bound _ below) smaller.not_ge
  | promoted minimum undecided chosen only returned => exact chosen

theorem Bounded.chosen (h : Bounded m s) (hp : Proper m event)
    (hm : s.registry.primary = some m) : (s.step event).registry.primary = some m := by
  cases event with
  | register k value =>
    rcases s.step_register k value with ⟨-, hs⟩ | ⟨-, hs⟩ <;> rw [hs] <;> exact hm
  | ready k =>
    have hd := s.registry.markReadyAndDecide_decides k
    simp only [Arbitration.step]
    generalize s.registry.markReadyAndDecide k = out at hd
    cases hd with
    | missing | wait => exact hm
    | lost held chosen smaller =>
      obtain rfl := Option.some.inj (hm.symm.trans chosen)
      rw [CandidateRegistry.remove_primary, chosen, if_neg (by simpa using smaller.ne)]
    | promoted minimum undecided chosen only returned =>
      rw [chosen, (undecided m hm).antisymm (h.bound k minimum.1)]
  | remove | takeAll => exact hp.elim

variable {events : List (CandidateEvent α)}

theorem Bounded.foldl (h : Bounded m s) (hp : ∀ event ∈ events, Proper m event) :
    Bounded m (events.foldl Arbitration.step s) :=
  List.foldlRecOn events Arbitration.step h fun _ ih event he => ih.step (hp event he)

theorem Bounded.foldl_held (h : Bounded m s) (hp : ∀ event ∈ events, Proper m event)
    (hm : m ∈ s.registry.entries ∨ m ∈ registeredKeys events) :
    m ∈ (events.foldl Arbitration.step s).registry.entries := by
  induction events generalizing s with
  | nil => exact hm.resolve_right (by simp [registeredKeys])
  | cons event events ih =>
    have hev := hp event (by simp)
    refine ih (h.step hev) (fun e he => hp e (by simp [he])) ?_
    rcases hm with hm | hm
    · exact .inl (h.held hev hm)
    · cases event with
      | register k value =>
        rw [registeredKeys_register, List.mem_cons] at hm
        rcases hm with rfl | hm
        · refine .inl ?_
          rcases s.step_register m value with ⟨hin, hs⟩ | ⟨-, hs⟩ <;> rw [hs]
          · exact hin
          · exact OrdMap.mem_insert.mpr (.inl rfl)
        · exact .inr hm
      | ready k => exact .inr hm
      | remove | takeAll => exact hev.elim

theorem Bounded.foldl_chosen (h : Bounded m s) (hp : ∀ event ∈ events, Proper m event)
    (hm : s.registry.primary = some m) :
    (events.foldl Arbitration.step s).registry.primary = some m := by
  induction events generalizing s with
  | nil => exact hm
  | cons event events ih =>
    have hev := hp event (by simp)
    exact ih (h.step hev) (fun e he => hp e (by simp [he])) (h.chosen hev hm)

end Minimum

theorem Presents.proper {keys : Finset ConnectionCandidateKey} {events : List (CandidateEvent α)}
    (h : Presents keys events) (hne : keys.Nonempty) :
    ∀ event ∈ events, Proper (keys.min' hne) event := by
  intro event he
  cases event with
  | register key value =>
    refine keys.min'_le key ?_
    rw [← h.registered, List.mem_toFinset]
    exact List.mem_filterMap.mpr ⟨_, he, rfl⟩
  | ready => trivial
  | remove key => exact absurd rfl ((h.kept _ he).2 key)
  | takeAll => exact absurd rfl (h.kept _ he).1

theorem Presents.primary {keys : Finset ConnectionCandidateKey} {events : List (CandidateEvent α)}
    (h : Presents keys events) (hne : keys.Nonempty) :
    (run events).registry.primary = some (keys.min' hne) := by
  have hproper := h.proper hne
  obtain ⟨before, after, rfl, hreg⟩ := h.asked _ (keys.min'_mem hne)
  have hbefore : ∀ event ∈ before, Proper (keys.min' hne) event := fun e he =>
    hproper e (by simp [he])
  have hstart : Bounded (keys.min' hne) ({} : Arbitration α) := ⟨⟨nofun, .nil⟩, by simp⟩
  have hmid := hstart.foldl hbefore
  have hheld := hstart.foldl_held hbefore (.inr hreg)
  rw [run, List.foldl_append, List.foldl_cons]
  exact (hmid.step (hproper (.ready _) (by simp))).foldl_chosen
    (fun e he => hproper e (by simp [he])) (hmid.ready hheld)

/-- Whatever is registered, asked, removed and taken, the primary is a registered candidate
and each registered value is held or came back once; two sides that see the same
candidates, in any two orders, choose the one with the smallest key. -/
theorem duplicate_connections_agree :
    (∀ events : List (CandidateEvent α), (run events).Accounted) ∧
    ∀ (keys : Finset ConnectionCandidateKey) (hne : keys.Nonempty)
      (here : List (CandidateEvent α)) (there : List (CandidateEvent β)),
      Presents keys here → Presents keys there →
        (run here).registry.primary = some (keys.min' hne) ∧
        (run there).registry.primary = some (keys.min' hne) :=
  ⟨run_accounted, fun _ hne _ _ hhere hthere => ⟨hhere.primary hne, hthere.primary hne⟩⟩

/-- The two dials of one pair of peers, in opposite orders on the two sides. -/
def lowKey : ConnectionCandidateKey := .new 1 1
def highKey : ConnectionCandidateKey := .new 2 1

def highFirst : List (CandidateEvent String) :=
  [.register highKey "high", .ready highKey, .register lowKey "low", .ready lowKey]

def lowFirst : List (CandidateEvent String) :=
  [.register lowKey "low", .register highKey "high", .ready highKey, .ready lowKey, .ready highKey]

theorem highFirst_presents : Presents {lowKey, highKey} highFirst where
  once := by decide
  registered := by decide
  asked := by
    intro key hk
    rcases Finset.mem_insert.mp hk with rfl | hk
    · exact ⟨highFirst.take 3, _, rfl, by decide⟩
    · obtain rfl := Finset.mem_singleton.mp hk
      exact ⟨highFirst.take 1, _, rfl, by decide⟩
  kept := by simp [highFirst]

theorem lowFirst_presents : Presents {lowKey, highKey} lowFirst where
  once := by decide
  registered := by decide
  asked := by
    intro key hk
    rcases Finset.mem_insert.mp hk with rfl | hk
    · exact ⟨lowFirst.take 3, _, rfl, by decide⟩
    · obtain rfl := Finset.mem_singleton.mp hk
      exact ⟨lowFirst.take 2, _, rfl, by decide⟩
  kept := by simp [lowFirst]

theorem duplicate_connections_agree_opposite :
    (run highFirst).registry.primary = some lowKey ∧
    (run lowFirst).registry.primary = some lowKey := by
  have hne : ({lowKey, highKey} : Finset ConnectionCandidateKey).Nonempty := ⟨lowKey, by decide⟩
  have hmin : ({lowKey, highKey} : Finset ConnectionCandidateKey).min' hne = lowKey := by decide +revert
  have h := duplicate_connections_agree.2 {lowKey, highKey} hne highFirst lowFirst
    highFirst_presents lowFirst_presents
  rwa [hmin] at h

end Arbitration

end Voytty.Daemon
