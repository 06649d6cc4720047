import Voytty.Daemon.Replay
import Voytty.Lib.Transition

/-!
# At most one execution

Every interleaving of lease issue, registration and completion, as a step
relation over the registry and the cells, with the list of executions granted so
far. `Replay.Inv` ties the three together: a granted sequence is retained with its
cell, lies below its lease's low-water mark, or belongs to a retired lease, and
in the last two cases its execution has ended.
-/

namespace Voytty.Daemon

open Voytty.Lib Relation

variable {F Res : Type}

/-! ## Completion is permanent -/

def Cells.result (cells : Cells F Res) (cell : Nat) : Option Res := cells[cell]?.bind (·.result)

variable {cells : Cells F Res} {cell : Nat}

theorem isComplete_iff :
    cells.isComplete cell = true ↔ ∃ r, cells.result cell = some r := by
  unfold Cells.isComplete Cells.result
  cases cells[cell]? with
  | none => simp
  | some c => simp [Option.isSome_iff_exists]

theorem result_append {r : Res} (h : cells.result cell = some r) (c : OperationCell F Res) :
    Cells.result (cells ++ [c]) cell = some r := by
  obtain ⟨d, hd, hr⟩ := Option.bind_eq_some_iff.mp h
  refine Option.bind_eq_some_iff.mpr ⟨d, ?_, hr⟩
  rw [List.getElem?_append_left (List.getElem?_eq_some_iff.mp hd).1, hd]

theorem result_complete {r : Res} (h : cells.result cell = some r) (ended : Nat) (result : Res) :
    Cells.result (cells.modify ended (·.complete result)) cell = some r := by
  obtain ⟨d, hd, hr⟩ := Option.bind_eq_some_iff.mp h
  refine Option.bind_eq_some_iff.mpr ⟨d, ?_, hr⟩
  rw [List.getElem?_modify, hd]
  simp [OperationCell.complete, hr]

theorem isComplete_append (h : cells.isComplete cell) (c : OperationCell F Res) :
    Cells.isComplete (cells ++ [c]) cell := by
  obtain ⟨r, hr⟩ := isComplete_iff.mp h
  exact isComplete_iff.mpr ⟨r, result_append hr c⟩

theorem isComplete_complete {other : Nat} (h : cells.isComplete other) (cell : Nat) (result : Res) :
    Cells.isComplete (cells.modify cell (·.complete result)) other := by
  obtain ⟨r, hr⟩ := isComplete_iff.mp h
  exact isComplete_iff.mpr ⟨r, result_complete hr cell result⟩

/-! ## One lease -/

/-- A granted sequence of a lease: retained with its cell, or forgotten after its end. -/
def ReplayEpoch.Holds (cells : Cells F Res) (epoch : ReplayEpoch) (sequence cell : Nat) : Prop :=
  epoch.operations[sequence]? = some cell ∨
    sequence < epoch.lowWater ∧ cells.isComplete cell = true

namespace ReplayEpoch

/-- What making room keeps. -/
structure Trimmed (cells : Cells F Res) (epoch epoch' : ReplayEpoch) : Prop where
  subset : ∀ sequence cell : Nat, epoch'.operations[sequence]? = some cell →
    epoch.operations[sequence]? = some cell
  holds : ∀ sequence cell, epoch.Holds cells sequence cell → epoch'.Holds cells sequence cell
  size : epoch'.operations.size ≤ epoch.operations.size

theorem Trimmed.refl (cells : Cells F Res) (epoch : ReplayEpoch) : Trimmed cells epoch epoch :=
  ⟨fun _ _ h => h, fun _ _ h => h, Nat.le_refl _⟩

variable {cells : Cells F Res}

theorem Trimmed.trans {e e' e'' : ReplayEpoch} (h : Trimmed cells e e') (h' : Trimmed cells e' e'') :
    Trimmed cells e e'' :=
  ⟨fun s c hs => h.subset s c (h'.subset s c hs), fun s c hs => h'.holds s c (h.holds s c hs),
    h'.size.trans h.size⟩

theorem first_lt {operations : OrdMap Nat Nat} {oldest cell : Nat}
    (hfirst : OrdMap.first operations = some (oldest, cell)) (hsize : 1 < operations.size)
    (hbound : ∀ sequence c : Nat, operations[sequence]? = some c → sequence < 2 ^ 64) :
    oldest < 2 ^ 64 - 1 := by
  obtain ⟨hget, hmin⟩ := OrdMap.first_some hfirst
  -- the rest of the map is not empty, and its keys are larger
  have herase := OrdMap.size_erase_of_mem hget
  cases hnext : OrdMap.first (operations.erase oldest) with
  | none => have := OrdMap.first_none hnext; omega
  | some p =>
    obtain ⟨next, c⟩ := p
    have hother := (OrdMap.first_some hnext).1
    rw [OrdMap.get_erase] at hother
    split at hother
    · cases hother
    · rename_i hne
      have h1 := hmin next c hother
      have h2 := hbound next c hother
      omega

theorem trimmed_erase {epoch : ReplayEpoch} {oldest cell : Nat}
    (hfirst : OrdMap.first epoch.operations = some (oldest, cell))
    (hsize : 1 < epoch.operations.size)
    (hbound : ∀ sequence c : Nat, epoch.operations[sequence]? = some c → sequence < 2 ^ 64)
    (hcomplete : cells.isComplete cell = true) :
    Trimmed cells epoch
      { lowWater := max epoch.lowWater (saturatingSucc oldest)
        operations := epoch.operations.erase oldest } := by
  have hget := (OrdMap.first_some hfirst).1
  have hlt := first_lt hfirst hsize hbound
  refine ⟨fun sequence c h => ?_, fun sequence c h => ?_, ?_⟩
  · rw [OrdMap.get_erase] at h
    split at h
    · cases h
    · exact h
  · rcases h with h | ⟨hlow, hc⟩
    · by_cases heq : oldest = sequence
      · subst heq
        obtain rfl : cell = c := Option.some.inj (hget.symm.trans h)
        exact .inr ⟨by simp only [saturatingSucc]; omega, hcomplete⟩
      · exact .inl (by rw [OrdMap.get_erase, if_neg heq]; exact h)
    · exact .inr ⟨lt_of_lt_of_le hlow (le_max_left ..), hc⟩
  · have := OrdMap.size_erase_of_mem hget
    dsimp only
    omega

theorem makeRoom_trimmed (fuel : Nat) (epoch : ReplayEpoch)
    (hbound : ∀ sequence c : Nat, epoch.operations[sequence]? = some c → sequence < 2 ^ 64) :
    Trimmed cells epoch (makeRoom cells fuel epoch).2 := by
  induction fuel generalizing epoch with
  | zero => exact .refl cells epoch
  | succ fuel ih =>
    unfold makeRoom
    split
    · exact .refl cells epoch
    rename_i hfull
    split
    · exact .refl cells epoch
    rename_i oldest cell hfirst
    split
    · rename_i hcomplete
      have hsize : 1 < epoch.operations.size := by
        unfold operationResultsPerEpoch at hfull
        omega
      have htrim := trimmed_erase hfirst hsize hbound hcomplete
      exact htrim.trans (ih _ fun sequence c h => hbound sequence c (htrim.subset sequence c h))
    · exact .refl cells epoch

theorem makeRoom_room {fuel : Nat} {epoch epoch' : ReplayEpoch}
    (hfuel : epoch.operations.size < fuel) (h : makeRoom cells fuel epoch = (.ok (), epoch')) :
    epoch'.operations.size < operationResultsPerEpoch := by
  induction fuel generalizing epoch with
  | zero => omega
  | succ fuel ih =>
    unfold makeRoom at h
    split at h
    · rename_i hroom
      obtain ⟨-, rfl⟩ := Prod.mk.inj h
      exact hroom
    split at h
    · rename_i hfirst
      obtain ⟨-, rfl⟩ := Prod.mk.inj h
      rw [OrdMap.first_none hfirst]
      decide
    rename_i oldest cell hfirst
    split at h
    · refine ih ?_ h
      have := OrdMap.size_erase_of_mem (OrdMap.first_some hfirst).1
      dsimp only
      omega
    · cases h

end ReplayEpoch

/-! ## Leases -/

def ReplayEpoch.FullyComplete (cells : Cells F Res) (epoch : ReplayEpoch) : Prop :=
  ∀ sequence cell : Nat, epoch.operations[sequence]? = some cell → cells.isComplete cell = true

namespace ReplayRegistry

/-- Registries that differ in access times only. -/
structure SameLeases (r r' : ReplayRegistry) : Prop where
  incarnation : r'.incarnation = r.incarnation
  retired : r'.retiredThrough = r.retiredThrough
  issued : r'.issuedThrough = r.issuedThrough
  epochs : ∀ key : ReplayKey, r'.epochs[key]?.map (·.epoch) = r.epochs[key]?.map (·.epoch)
  size : r'.epochs.size = r.epochs.size

theorem setAccesses_same (epochs : OrdMap ReplayKey ReplayEpochEntry)
    (order : List (ReplayKey × Nat)) :
    (∀ key : ReplayKey, (setAccesses epochs order)[key]?.map (·.epoch) =
      epochs[key]?.map (·.epoch)) ∧ (setAccesses epochs order).size = epochs.size := by
  induction order generalizing epochs with
  | nil => exact ⟨fun _ => rfl, rfl⟩
  | cons p order ih =>
    obtain ⟨hget, hsize⟩ := ih (epochs.modify p.1 fun entry => { entry with lastAccess := p.2 })
    refine ⟨fun key => (hget key).trans ?_, hsize.trans Std.TreeMap.size_modify⟩
    rw [OrdMap.get_modify]
    split
    · rename_i hkey
      subst hkey
      cases epochs[p.1]? <;> rfl
    · rfl

theorem renumber_same (r : ReplayRegistry) : SameLeases r r.renumber :=
  have hset := setAccesses_same r.epochs _
  ⟨rfl, rfl, rfl, hset.1, hset.2⟩

theorem nextAccess_same (r : ReplayRegistry) : SameLeases r r.nextAccess.2 := by
  unfold nextAccess
  dsimp only
  split
  · exact { r.renumber_same with }
  · exact ⟨rfl, rfl, rfl, fun _ => rfl, rfl⟩

variable {r r' : ReplayRegistry} {key : ReplayKey} {seen : ReplayKey → ReplayKey → Bool}
  {cells : Cells F Res}

theorem SameLeases.lookup (h : SameLeases r r') {entry : ReplayEpochEntry}
    (he : r'.epochs[key]? = some entry) :
    ∃ entry', r.epochs[key]? = some entry' ∧ entry'.epoch = entry.epoch := by
  have hmap := h.epochs key
  rw [he] at hmap
  exact Option.map_eq_some_iff.mp hmap.symm

theorem SameLeases.symm (h : SameLeases r r') : SameLeases r' r :=
  ⟨h.incarnation.symm, h.retired.symm, h.issued.symm, fun key => (h.epochs key).symm, h.size.symm⟩

/-- Active leases lie between the retirement floor and the last issued ordinal. -/
structure Leases (r : ReplayRegistry) : Prop where
  active : ∀ (key : ReplayKey) (entry : ReplayEpochEntry), r.epochs[key]? = some entry →
    r.retiredThrough[key.principal]?.getD 0 < key.leaseOrdinal ∧
      ∃ last, r.issuedThrough[key.principal]? = some last ∧ key.leaseOrdinal ≤ last
  retired : ∀ (principal : ReplayPrincipal) (floor : Nat),
    r.retiredThrough[principal]? = some floor →
      ∃ last, r.issuedThrough[principal]? = some last ∧ floor ≤ last

theorem Leases.same (h : Leases r) (hs : SameLeases r r') : Leases r' where
  active := fun key entry he => by
    obtain ⟨entry', he', -⟩ := hs.lookup he
    rw [hs.retired, hs.issued]
    exact h.active key entry' he'
  retired := by
    rw [hs.retired, hs.issued]
    exact h.retired

theorem prefixComplete_seen {seen : ReplayKey → Bool} {active : ReplayKey}
    {entry : ReplayEpochEntry} (h : r.prefixComplete seen key) (ha : r.epochs[active]? = some entry)
    (hp : active.principal = key.principal) (ho : active.leaseOrdinal ≤ key.leaseOrdinal) :
    seen active = true := by
  have := List.all_eq_true.mp h (active, entry) (OrdMap.mem_toList.mpr ha)
  simpa [hp, ho] using this

theorem retirementCandidate_some {access : Nat}
    (h : r.retirementCandidate seen = some (key, access)) :
    (∃ entry, r.epochs[key]? = some entry) ∧ r.prefixComplete (seen key) key := by
  -- a candidate was considered, so it is active and its prefix was seen complete
  have scan : ∀ (entries : List (ReplayKey × ReplayEpochEntry))
      (candidate : Option (ReplayKey × Nat)), (∀ p ∈ entries, r.epochs[p.1]? = some p.2) →
      (∀ c, candidate = some c →
        (∃ entry, r.epochs[c.1]? = some entry) ∧ r.prefixComplete (seen c.1) c.1) →
      ∀ c, entries.foldl (r.considerCandidate seen) candidate = some c →
        (∃ entry, r.epochs[c.1]? = some entry) ∧ r.prefixComplete (seen c.1) c.1 := by
    intro entries
    induction entries with
    | nil => exact fun candidate _ hc c h => hc c h
    | cons p entries ih =>
      intro candidate hentries hc c h
      refine ih _ (fun q hq => hentries q (List.mem_cons_of_mem _ hq)) ?_ c h
      intro c' hc'
      unfold considerCandidate at hc'
      split at hc'
      · rename_i hp
        obtain rfl := Option.some.inj hc'
        exact ⟨⟨p.2, hentries p List.mem_cons_self⟩, (Bool.and_eq_true_iff.mp hp).1⟩
      · exact hc c' hc'
  exact scan _ none (fun p hp => OrdMap.mem_toList.mp hp) nofun (key, access) h

/-- What retirement may drop: leases at or below the new floor whose operations have ended. -/
structure Shrunk (cells : Cells F Res) (r r' : ReplayRegistry) : Prop where
  incarnation : r'.incarnation = r.incarnation
  issued : r'.issuedThrough = r.issuedThrough
  subset : ∀ (key : ReplayKey) (entry : ReplayEpochEntry), r'.epochs[key]? = some entry →
    r.epochs[key]? = some entry
  gone : ∀ (key : ReplayKey) (entry : ReplayEpochEntry), r.epochs[key]? = some entry →
    r'.epochs[key]? = some entry ∨
    entry.epoch.FullyComplete cells ∧
      ∃ floor, r'.retiredThrough[key.principal]? = some floor ∧ key.leaseOrdinal ≤ floor
  floor : ∀ (principal : ReplayPrincipal) (floor : Nat), r.retiredThrough[principal]? = some floor →
    ∃ floor', r'.retiredThrough[principal]? = some floor' ∧ floor ≤ floor'
  leases : Leases r'
  size : r'.epochs.size ≤ r.epochs.size

theorem Shrunk.refl (cells : Cells F Res) (h : Leases r) : Shrunk cells r r :=
  ⟨rfl, rfl, fun _ _ h => h, fun _ _ h => .inl h, fun _ floor h => ⟨floor, h, Nat.le_refl _⟩, h,
    Nat.le_refl _⟩

theorem Shrunk.trans {r'' : ReplayRegistry} (h : Shrunk cells r r') (h' : Shrunk cells r' r'') :
    Shrunk cells r r'' where
  incarnation := h'.incarnation.trans h.incarnation
  issued := h'.issued.trans h.issued
  subset := fun key entry he => h.subset key entry (h'.subset key entry he)
  gone := fun key entry he => by
    rcases h.gone key entry he with he | ⟨hc, floor, hf, hle⟩
    · exact h'.gone key entry he
    · obtain ⟨floor', hf', hle'⟩ := h'.floor _ _ hf
      exact .inr ⟨hc, floor', hf', hle.trans hle'⟩
  floor := fun principal floor hf => by
    obtain ⟨floor', hf', hle⟩ := h.floor _ _ hf
    obtain ⟨floor'', hf'', hle'⟩ := h'.floor _ _ hf'
    exact ⟨floor'', hf'', hle.trans hle'⟩
  leases := h'.leases
  size := h'.size.trans h.size

/-- What a check saw complete is complete by now. -/
def Honest (cells : Cells F Res) (r : ReplayRegistry) (seen : ReplayKey → ReplayKey → Bool) : Prop :=
  ∀ (key active : ReplayKey) (entry : ReplayEpochEntry), r.epochs[active]? = some entry →
    seen key active = true → entry.epoch.FullyComplete cells

theorem Honest.subset (h : Honest cells r seen) (hs : Shrunk cells r r') :
    Honest cells r' seen :=
  fun key active entry he => h key active entry (hs.subset active entry he)

theorem retireOne_shrunk (hl : Leases r) (hseen : Honest cells r seen)
    (h : r.retireOne seen = .ok r') :
    Shrunk cells r r' ∧ r'.epochs.size < r.epochs.size := by
  unfold retireOne at h
  split at h
  · cases h
  rename_i key access hcand
  obtain ⟨⟨entry, hentry⟩, hpre⟩ := retirementCandidate_some hcand
  obtain ⟨-, last, hlast, hle⟩ := hl.active key entry hentry
  obtain rfl := Except.ok.inj h
  -- an active lease of the principal up to the new floor is in the candidate's prefix
  have hdone : ∀ (k : ReplayKey) (e : ReplayEpochEntry), r.epochs[k]? = some e →
      k.principal = key.principal →
      k.leaseOrdinal ≤ max (r.retiredThrough[key.principal]?.getD 0) key.leaseOrdinal →
      e.epoch.FullyComplete cells := by
    intro k e he hp hk
    have hfloor := (hl.active k e he).1
    rw [hp] at hfloor
    exact hseen key k e he (prefixComplete_seen hpre he hp (by omega))
  refine ⟨⟨rfl, rfl, fun k e he => ?_, fun k e he => ?_, fun principal floor hf => ?_,
    ⟨fun k e he => ?_, fun principal floor hf => ?_⟩, Std.TreeMap.size_filter_le_size⟩, ?_⟩
  · rw [OrdMap.get_filter] at he
    exact (Option.filter_eq_some_iff.mp he).1
  · by_cases hkeep : k.principal ≠ key.principal ∨
        max (r.retiredThrough[key.principal]?.getD 0) key.leaseOrdinal < k.leaseOrdinal
    · left
      rw [OrdMap.get_filter, he]
      simpa using hkeep
    · right
      obtain ⟨hp, hk⟩ := not_or.mp hkeep
      have hp' : k.principal = key.principal := not_not.mp hp
      refine ⟨hdone k e he hp' (by omega), _, ?_, not_lt.mp hk⟩
      rw [OrdMap.get_insert, if_pos hp'.symm]
  · rw [OrdMap.get_insert]
    split
    · rename_i hp
      subst hp
      exact ⟨_, rfl, by simp [hf]⟩
    · exact ⟨floor, hf, Nat.le_refl _⟩
  · rw [OrdMap.get_filter, Option.filter_eq_some_iff] at he
    obtain ⟨he, hkeep⟩ := he
    obtain ⟨hfloor, hissued⟩ := hl.active k e he
    refine ⟨?_, hissued⟩
    rw [OrdMap.get_insert]
    split
    · rename_i hp
      simpa [← hp] using hkeep
    · exact hfloor
  · rw [OrdMap.get_insert] at hf
    split at hf
    · rename_i hp
      subst hp
      obtain rfl := Option.some.inj hf
      refine ⟨last, hlast, max_le ?_ hle⟩
      cases hr : r.retiredThrough[key.principal]? with
      | none => exact Nat.zero_le _
      | some floor =>
        obtain ⟨last', hlast', hle'⟩ := hl.retired _ _ hr
        obtain rfl := Option.some.inj (hlast.symm.trans hlast')
        exact hle'
    · exact hl.retired principal floor hf
  · exact OrdMap.size_filter_lt hentry (by simp)

theorem makeRoom_shrunk {seen : Nat → ReplayKey → ReplayKey → Bool} (fuel : Nat) (hl : Leases r)
    (hseen : ∀ n, Honest cells r (seen n)) :
    Shrunk cells r (makeRoom seen fuel r).2 := by
  induction fuel generalizing r with
  | zero => exact .refl cells hl
  | succ fuel ih =>
    unfold makeRoom
    split
    · exact .refl cells hl
    split
    · exact .refl cells hl
    · rename_i r' hretire
      obtain ⟨hs, -⟩ := retireOne_shrunk hl (hseen fuel) hretire
      exact hs.trans (ih hs.leases fun n => (hseen n).subset hs)

theorem makeRoom_room {seen : Nat → ReplayKey → ReplayKey → Bool} {fuel : Nat} (hl : Leases r)
    (hseen : ∀ n, Honest cells r (seen n)) (hfuel : r.epochs.size < fuel)
    (h : makeRoom seen fuel r = (.ok (), r')) :
    r'.epochs.size < maxActiveOperationEpochs := by
  induction fuel generalizing r with
  | zero => omega
  | succ fuel ih =>
    unfold makeRoom at h
    split at h
    · rename_i hroom
      obtain ⟨-, rfl⟩ := Prod.mk.inj h
      exact hroom
    split at h
    · cases h
    · rename_i r1 hretire
      obtain ⟨hs, hlt⟩ := retireOne_shrunk hl (hseen fuel) hretire
      exact ih hs.leases (fun n => (hseen n).subset hs) (by omega) h

end ReplayRegistry

/-- What a registration can come to in the lease it names. -/
inductive ReplayEpoch.Registered (cells : Cells F Res) (epoch : ReplayEpoch) (sequence : Nat)
    (fingerprint : F) :
    Except DaemonError ReplayRegistration × ReplayEpoch × Cells F Res → Prop where
  | join {cell : Nat} (retained : epoch.operations[sequence]? = some cell)
      (same : ∀ c, cells[cell]? = some c → c.fingerprint = fingerprint) :
      Registered cells epoch sequence fingerprint (.ok (.join cell), epoch, cells)
  | mismatch {cell : Nat} {c : OperationCell F Res}
      (retained : epoch.operations[sequence]? = some cell) (found : cells[cell]? = some c)
      (other : c.fingerprint ≠ fingerprint) :
      Registered cells epoch sequence fingerprint (.error outcomeUnknown, epoch, cells)
  | below (absent : epoch.operations[sequence]? = none)
      (low : sequence = 0 ∨ sequence < epoch.lowWater) :
      Registered cells epoch sequence fingerprint (.error outcomeUnknown, epoch, cells)
  | full {error : DaemonError} {epoch' : ReplayEpoch}
      (absent : epoch.operations[sequence]? = none) (low : ¬sequence < epoch.lowWater)
      (room : epoch.makeRoom cells (epoch.operations.size + 1) = (.error error, epoch')) :
      Registered cells epoch sequence fingerprint (.error error, epoch', cells)
  | execute {epoch' : ReplayEpoch} (absent : epoch.operations[sequence]? = none)
      (low : ¬sequence < epoch.lowWater)
      (room : epoch.makeRoom cells (epoch.operations.size + 1) = (.ok (), epoch')) :
      Registered cells epoch sequence fingerprint
        (.ok (.execute cells.length), epoch'.add sequence cells.length,
          cells ++ [⟨fingerprint, none⟩])

theorem ReplayEpoch.register_registered [DecidableEq F] (cells : Cells F Res) (epoch : ReplayEpoch)
    (sequence : Nat) (fingerprint : F) :
    Registered cells epoch sequence fingerprint
      (epoch.register cells sequence fingerprint) := by
  unfold ReplayEpoch.register
  split
  · rename_i cell hcell
    split
    · rename_i hsame
      refine .join hcell fun c hc => ?_
      simpa [hc] using hsame
    · rename_i hother
      cases hc : cells[cell]? with
      | none => simp [hc] at hother
      | some c => exact .mismatch hcell hc (by simpa [hc] using hother)
  · rename_i hnone
    split
    · rename_i hlow
      exact .below hnone hlow
    · rename_i hlow
      have hlow := (not_or.mp hlow).2
      split
      · rename_i hroom
        exact .full hnone hlow hroom
      · rename_i hroom
        exact .execute hnone hlow hroom

inductive ReplayRegistry.Registered (r : ReplayRegistry) (cells : Cells F Res) (key : ReplayKey)
    (operationId : OperationId) (fingerprint : F) :
    Except DaemonError ReplayRegistration × ReplayRegistry × Cells F Res → Prop where
  /-- another daemon's token, no sequence, a retired lease or one never issued -/
  | refused (bad : operationId.lease.daemonIncarnation ≠ r.incarnation ∨
      operationId.sequence = 0 ∨ operationId.lease.ordinal ≠ key.leaseOrdinal ∨
      (∃ floor, r.retiredThrough[key.principal]? = some floor ∧ key.leaseOrdinal ≤ floor) ∨
      ∀ last, r.issuedThrough[key.principal]? = some last → last < key.leaseOrdinal) :
      Registered r cells key operationId fingerprint (.error outcomeUnknown, r, cells)
  | absent (missing : r.nextAccess.2.epochs[key]? = none) :
      Registered r cells key operationId fingerprint
        (.error outcomeUnknown, r.nextAccess.2, cells)
  | entry {entry : ReplayEpochEntry} {result : Except DaemonError ReplayRegistration}
      {epoch : ReplayEpoch} {cells' : Cells F Res}
      (incarnation : operationId.lease.daemonIncarnation = r.incarnation)
      (positive : operationId.sequence ≠ 0)
      (found : r.nextAccess.2.epochs[key]? = some entry)
      (outcome : entry.epoch.Registered cells operationId.sequence fingerprint
        (result, epoch, cells')) :
      Registered r cells key operationId fingerprint
        (result, r.nextAccess.2.setEntry key ⟨epoch, r.nextAccess.1⟩, cells')

theorem ReplayRegistry.register_registered [DecidableEq F] (r : ReplayRegistry)
    (cells : Cells F Res) (key : ReplayKey) (operationId : OperationId) (fingerprint : F) :
    Registered r cells key operationId fingerprint
      (r.register cells key operationId fingerprint) := by
  unfold ReplayRegistry.register
  split
  · rename_i hother
    exact .refused (.inl hother)
  rename_i hincarnation
  split
  · rename_i hbad
    exact .refused (.inr (hbad.imp_right .inl))
  rename_i hpositive
  split
  · rename_i hretired
    cases hfloor : r.retiredThrough[key.principal]? with
    | none => simp [hfloor] at hretired
    | some floor =>
      exact .refused (.inr (.inr (.inr (.inl ⟨floor, hfloor, by simpa [hfloor] using hretired⟩))))
  split
  · rename_i hissued
    refine .refused (.inr (.inr (.inr (.inr fun last hlast => ?_))))
    rw [hlast] at hissued
    simpa using hissued
  dsimp only
  split
  · rename_i hnone
    exact .absent hnone
  · rename_i entry hentry
    exact .entry (not_not.mp hincarnation) (not_or.mp hpositive).1 hentry
      (entry.epoch.register_registered _ _ _)

/-! ## Runs -/

structure Grant where
  key : ReplayKey
  sequence : Nat
  cell : Nat
  deriving DecidableEq, Repr

/-- The registry, every cell made, and the leases issued and executions granted so far. -/
structure Replay (F Res : Type) where
  registry : ReplayRegistry
  cells : Cells F Res := []
  issued : List ReplayKey := []
  granted : List Grant := []

namespace Replay

def issue (s : Replay F Res) (principal : AttachmentPrincipal)
    (seen : Nat → ReplayKey → ReplayKey → Bool) :
    Except DaemonError OperationLease × Replay F Res :=
  let (result, registry) := s.registry.issue principal seen
  let issued := match result with
    | .ok lease => s.issued ++ [ReplayKey.new principal lease.ordinal]
    | .error _ => s.issued
  (result, { s with registry, issued })

def registered (s : Replay F Res) (key : ReplayKey) (sequence : Nat)
    (out : Except DaemonError ReplayRegistration × ReplayRegistry × Cells F Res) :
    Except DaemonError ReplayRegistration × Replay F Res :=
  let granted := match out.1 with
    | .ok (.execute cell) => s.granted ++ [⟨key, sequence, cell⟩]
    | _ => s.granted
  (out.1, { s with registry := out.2.1, cells := out.2.2, granted })

/-- The registration of `execute_replayed`. -/
def register [DecidableEq F] (s : Replay F Res) (principal : AttachmentPrincipal)
    (operationId : OperationId) (fingerprint : F) :
    Except DaemonError ReplayRegistration × Replay F Res :=
  let key := ReplayKey.new principal operationId.lease.ordinal
  s.registered key operationId.sequence
    (s.registry.register s.cells key operationId fingerprint)

theorem register_spec [DecidableEq F] (s : Replay F Res) (principal : AttachmentPrincipal)
    (operationId : OperationId) (fingerprint : F) :
    ∃ out, s.registry.Registered s.cells (.new principal operationId.lease.ordinal) operationId
        fingerprint out ∧
      s.register principal operationId fingerprint =
        s.registered (.new principal operationId.lease.ordinal) operationId.sequence out :=
  ⟨_, s.registry.register_registered _ _ _ _, rfl⟩

/-- An execution ends with a result; a panic or a dropped guard ends it too. -/
def complete (s : Replay F Res) (cell : Nat) (result : Res) : Replay F Res :=
  { s with cells := s.cells.modify cell (·.complete result) }

/-- One step of any interleaving. Completions beside a scan come before the issue that scans. -/
inductive Step [DecidableEq F] : Replay F Res → Replay F Res → Prop where
  | issue (s : Replay F Res) (principal : AttachmentPrincipal)
      (seen : Nat → ReplayKey → ReplayKey → Bool) (honest : ∀ n, s.registry.Honest s.cells (seen n)) :
      Step s (s.issue principal seen).2
  | register (s : Replay F Res) (principal : AttachmentPrincipal) (operationId : OperationId)
      (fingerprint : F) (wide : operationId.sequence < 2 ^ 64) :
      Step s (s.register principal operationId fingerprint).2
  | complete (s : Replay F Res) (cell : Nat) (result : Res) : Step s (s.complete cell result)

/-- A granted execution is retained, or forgotten after its end. -/
def Kept (s : Replay F Res) (g : Grant) : Prop :=
  (∃ entry, s.registry.epochs[g.key]? = some entry ∧ entry.epoch.Holds s.cells g.sequence g.cell) ∨
    s.cells.isComplete g.cell = true ∧
      ∃ floor, s.registry.retiredThrough[g.key.principal]? = some floor ∧ g.key.leaseOrdinal ≤ floor

structure Inv (s : Replay F Res) : Prop where
  cells : s.granted.map (·.cell) = List.range s.cells.length
  once : (s.granted.map fun g => (g.key, g.sequence)).Nodup
  known : ∀ (key : ReplayKey) (entry : ReplayEpochEntry), s.registry.epochs[key]? = some entry →
    ∀ sequence cell : Nat, entry.epoch.operations[sequence]? = some cell →
      ⟨key, sequence, cell⟩ ∈ s.granted ∧ 0 < sequence ∧ sequence < 2 ^ 64
  kept : ∀ g ∈ s.granted, s.Kept g
  owned : ∀ (key : ReplayKey) (entry : ReplayEpochEntry), s.registry.epochs[key]? = some entry →
    key ∈ s.issued
  leases : s.registry.Leases
  principals : s.registry.issuedThrough.size ≤ maxReplayPrincipals
  epochs : s.registry.epochs.size ≤ maxActiveOperationEpochs
  results : ∀ (key : ReplayKey) (entry : ReplayEpochEntry), s.registry.epochs[key]? = some entry →
    entry.epoch.operations.size ≤ operationResultsPerEpoch

def start (incarnation : DaemonIncarnation) : Replay F Res := { registry := { incarnation } }

theorem Inv.start (incarnation : DaemonIncarnation) : (start incarnation : Replay F Res).Inv where
  cells := rfl
  once := List.nodup_nil
  known := by simp [Replay.start]
  kept := by simp [Replay.start]
  owned := by simp [Replay.start]
  leases := ⟨by simp [Replay.start], by simp [Replay.start]⟩
  principals := by simp [Replay.start]
  epochs := by simp [Replay.start]
  results := by simp [Replay.start]

variable {s s' : Replay F Res} {r : ReplayRegistry} {key : ReplayKey} {entry : ReplayEpochEntry}
  {epoch : ReplayEpoch} {sequence cell : Nat} {principal : AttachmentPrincipal}
  {operationId : OperationId} {fingerprint : F}

theorem complete_inv (h : s.Inv) (cell : Nat) (result : Res) :
    (s.complete cell result).Inv :=
  have hmono : ∀ c, s.cells.isComplete c = true → (s.complete cell result).cells.isComplete c = true :=
    fun c hc => isComplete_complete hc cell result
  { h with
    cells := by simpa [complete] using h.cells
    kept := fun g hg => by
      rcases h.kept g hg with ⟨entry, he, hop | ⟨hlow, hc⟩⟩ | ⟨hc, hfloor⟩
      · exact .inl ⟨entry, he, .inl hop⟩
      · exact .inl ⟨entry, he, .inr ⟨hlow, hmono _ hc⟩⟩
      · exact .inr ⟨hmono _ hc, hfloor⟩ }

theorem shrunk_inv (h : s.Inv) (hs : ReplayRegistry.Shrunk s.cells s.registry r) :
    ({ s with registry := r } : Replay F Res).Inv where
  cells := h.cells
  once := h.once
  known := fun key entry he => h.known key entry (hs.subset key entry he)
  kept := fun g hg => by
    rcases h.kept g hg with ⟨entry, he, hold⟩ | ⟨hc, floor, hf, hle⟩
    · rcases hs.gone _ _ he with he' | ⟨hdone, hfloor⟩
      · exact .inl ⟨entry, he', hold⟩
      · refine .inr ⟨?_, hfloor⟩
        rcases hold with hop | ⟨-, hc⟩
        · exact hdone _ _ hop
        · exact hc
    · obtain ⟨floor', hf', hle'⟩ := hs.floor _ _ hf
      exact .inr ⟨hc, floor', hf', hle.trans hle'⟩
  owned := fun key entry he => h.owned key entry (hs.subset key entry he)
  leases := hs.leases
  principals := by
    show r.issuedThrough.size ≤ _
    rw [hs.issued]
    exact h.principals
  epochs := hs.size.trans h.epochs
  results := fun key entry he => h.results key entry (hs.subset key entry he)

theorem same_inv (h : s.Inv) (hs : s.registry.SameLeases r) :
    ({ s with registry := r } : Replay F Res).Inv where
  cells := h.cells
  once := h.once
  known := fun key entry he => by
    obtain ⟨entry', he', heq⟩ := hs.lookup he
    rw [← heq]
    exact h.known key entry' he'
  kept := fun g hg => by
    rcases h.kept g hg with ⟨entry, he, hold⟩ | ⟨hc, hfloor⟩
    · obtain ⟨entry', he', heq⟩ := hs.symm.lookup he
      exact .inl ⟨entry', he', heq ▸ hold⟩
    · exact .inr ⟨hc, by rw [show r.retiredThrough = _ from hs.retired]; exact hfloor⟩
  owned := fun key entry he => by
    obtain ⟨entry', he', -⟩ := hs.lookup he
    exact h.owned key entry' he'
  leases := h.leases.same hs
  principals := by
    show r.issuedThrough.size ≤ _
    rw [hs.issued]
    exact h.principals
  epochs := hs.size.le.trans h.epochs
  results := fun key entry he => by
    obtain ⟨entry', he', heq⟩ := hs.lookup he
    rw [← heq]
    exact h.results key entry' he'

theorem setEntry_get {k : ReplayKey} :
    (r.setEntry key entry).epochs[k]? = if key = k then some entry else r.epochs[k]? :=
  OrdMap.get_insert

theorem setEntry_cases {k : ReplayKey} {e : ReplayEpochEntry}
    (hk : (r.setEntry key entry).epochs[k]? = some e) :
    key = k ∧ e = entry ∨ r.epochs[k]? = some e := by
  rw [setEntry_get] at hk
  split at hk
  · exact .inl ⟨‹_›, (Option.some.inj hk).symm⟩
  · exact .inr hk

theorem setEntry_inv (h : s.Inv) (he : s.registry.epochs[key]? = some entry) {cells : Cells F Res}
    {granted : List Grant} (access : Nat) (hcells : granted.map (·.cell) = List.range cells.length)
    (honce : (granted.map fun g => (g.key, g.sequence)).Nodup) (hsub : ∀ g ∈ s.granted, g ∈ granted)
    (hnew : ∀ g ∈ granted, g ∈ s.granted ∨ g.key = key ∧ epoch.Holds cells g.sequence g.cell)
    (hmono : ∀ cell, s.cells.isComplete cell = true → cells.isComplete cell = true)
    (hholds : ∀ g ∈ s.granted, g.key = key → entry.epoch.Holds s.cells g.sequence g.cell → epoch.Holds cells g.sequence g.cell)
    (hknown : ∀ sequence cell : Nat, epoch.operations[sequence]? = some cell → ⟨key, sequence, cell⟩ ∈ granted ∧ 0 < sequence ∧ sequence < 2 ^ 64)
    (hsize : epoch.operations.size ≤ operationResultsPerEpoch) :
    ({ s with
       registry := s.registry.setEntry key ⟨epoch, access⟩
       cells
       granted } : Replay F Res).Inv := by
  refine ⟨hcells, honce, fun k e hk q cell hop => ?_, fun g hg => ?_, fun k e hk => ?_,
    ⟨fun k e hk => ?_, h.leases.retired⟩, h.principals,
    (OrdMap.size_insert_of_mem he).le.trans h.epochs, fun k e hk => ?_⟩
  · rcases setEntry_cases hk with ⟨rfl, rfl⟩ | hk
    · exact hknown q cell hop
    · obtain ⟨hmem, hlt⟩ := h.known k e hk q cell hop
      exact ⟨hsub _ hmem, hlt⟩
  · rcases hnew g hg with hold | ⟨rfl, hheld⟩
    · rcases h.kept g hold with ⟨e, hk, hheld⟩ | ⟨hc, hfloor⟩
      · by_cases hkey : key = g.key
        · rw [← hkey, he] at hk
          obtain rfl := Option.some.inj hk
          exact .inl ⟨_, by rw [setEntry_get, if_pos hkey], hholds g hold hkey.symm hheld⟩
        · refine .inl ⟨e, by rw [setEntry_get, if_neg hkey]; exact hk, ?_⟩
          exact hheld.imp_right fun ⟨hlt, hc⟩ => ⟨hlt, hmono _ hc⟩
      · exact .inr ⟨hmono _ hc, hfloor⟩
    · exact .inl ⟨_, by rw [setEntry_get, if_pos rfl], hheld⟩
  · rcases setEntry_cases hk with ⟨rfl, -⟩ | hk
    · exact h.owned key entry he
    · exact h.owned k e hk
  · rcases setEntry_cases hk with ⟨rfl, -⟩ | hk
    · exact h.leases.active key entry he
    · exact h.leases.active k e hk
  · rcases setEntry_cases hk with ⟨-, rfl⟩ | hk
    · exact hsize
    · exact h.results k e hk

theorem trim_inv (h : s.Inv) (he : s.registry.epochs[key]? = some entry)
    (ht : ReplayEpoch.Trimmed s.cells entry.epoch epoch) (access : Nat) :
    ({ s with registry := s.registry.setEntry key ⟨epoch, access⟩ } : Replay F Res).Inv :=
  setEntry_inv h he access h.cells h.once (fun _ => id) (fun _ => .inl) (fun _ => id)
    (fun _ _ _ => ht.holds _ _) (fun q cell hop => h.known key entry he q cell (ht.subset _ _ hop))
    (ht.size.trans (h.results key entry he))

/-- A sequence that is not retained and not below the low-water mark was never granted. -/
theorem Inv.fresh (h : s.Inv) (he : s.registry.epochs[key]? = some entry)
    (hnone : entry.epoch.operations[sequence]? = none) (hlow : entry.epoch.lowWater ≤ sequence) :
    (key, sequence) ∉ s.granted.map fun g => (g.key, g.sequence) := by
  intro hmem
  obtain ⟨g, hg, heq⟩ := List.mem_map.mp hmem
  obtain ⟨rfl, rfl⟩ := Prod.mk.inj heq
  rcases h.kept g hg with ⟨e, hk, hold⟩ | ⟨-, floor, hf, hle⟩
  · obtain rfl := Option.some.inj (he.symm.trans hk)
    rcases hold with hop | ⟨hlt, -⟩
    · rw [hnone] at hop; cases hop
    · omega
  · have hactive := (h.leases.active g.key entry he).1
    rw [hf] at hactive
    simp only [Option.getD_some] at hactive
    omega

/-- A fresh sequence is granted a new cell in a lease that was trimmed and has room. -/
theorem grant_inv (h : s.Inv) (he : s.registry.epochs[key]? = some entry)
    (ht : ReplayEpoch.Trimmed s.cells entry.epoch epoch)
    (hfresh : (key, sequence) ∉ s.granted.map fun g => (g.key, g.sequence))
    (hroom : epoch.operations.size < operationResultsPerEpoch)
    (hwide : 0 < sequence ∧ sequence < 2 ^ 64) (access : Nat) (fingerprint : F) :
    ({ s with
       registry := s.registry.setEntry key ⟨epoch.add sequence s.cells.length, access⟩
       cells := s.cells ++ [{ fingerprint }]
       granted := s.granted ++ [⟨key, sequence, s.cells.length⟩] } : Replay F Res).Inv := by
  refine setEntry_inv h he access (by simp [h.cells, List.range_succ]) ?_
    (fun g hg => List.mem_append_left _ hg) (fun g hg => ?_) (fun c hc => isComplete_append hc _)
    (fun g hg hkey hheld => ?_) (fun q cell hop => ?_) (OrdMap.size_insert_le.trans hroom)
  · rw [List.map_append, List.nodup_append]
    refine ⟨h.once, by simp, fun a ha b hb => ?_⟩
    rintro rfl
    obtain rfl := List.mem_singleton.mp hb
    exact hfresh ha
  · rcases List.mem_append.mp hg with hg | hg
    · exact .inl hg
    · obtain rfl := List.mem_singleton.mp hg
      exact .inr ⟨rfl, .inl (by rw [ReplayEpoch.add, OrdMap.get_insert, if_pos rfl])⟩
  · rcases ht.holds _ _ hheld with hop | ⟨hlt, hc⟩
    · left
      rw [ReplayEpoch.add, OrdMap.get_insert, if_neg, hop]
      rintro rfl
      exact hfresh (List.mem_map.mpr ⟨g, hg, by rw [hkey]⟩)
    · exact .inr ⟨hlt, isComplete_append hc _⟩
  · rw [ReplayEpoch.add, OrdMap.get_insert] at hop
    split at hop
    · subst ‹sequence = q›
      obtain rfl := Option.some.inj hop
      exact ⟨by simp, hwide⟩
    · obtain ⟨hmem, hlt⟩ := h.known key entry he q cell (ht.subset _ _ hop)
      exact ⟨List.mem_append_left _ hmem, hlt⟩

theorem lease_inv (h : s.Inv) {principal : ReplayPrincipal} {ordinal : Nat}
    (hnext : ordinal = s.registry.issuedThrough[principal]?.getD 0 + 1)
    (hroom : s.registry.epochs.size < maxActiveOperationEpochs)
    (hprincipals : s.registry.issuedThrough[principal]? = none → s.registry.issuedThrough.size < maxReplayPrincipals)
    (access : Nat) :
    ({ s with
       registry := { s.registry.setEntry ⟨principal, ordinal⟩ ⟨{}, access⟩ with
         issuedThrough := s.registry.issuedThrough.insert principal ordinal }
       issued := s.issued ++ [⟨principal, ordinal⟩] } : Replay F Res).Inv := by
  have hbelow : ∀ last, s.registry.issuedThrough[principal]? = some last → last < ordinal := by
    intro last hlast
    rw [hnext, hlast, Option.getD_some]
    omega
  -- the new lease is above everything issued or retired for its principal
  have hold : ∀ (p : ReplayPrincipal) (n : Nat),
      (∃ last, s.registry.issuedThrough[p]? = some last ∧ n ≤ last) →
      (∃ last, (s.registry.issuedThrough.insert principal ordinal)[p]? = some last ∧ n ≤ last) ∧
        (p = principal → n < ordinal) := by
    rintro p n ⟨last, hlast, hle⟩
    rw [OrdMap.get_insert]
    by_cases hp : principal = p
    · subst hp
      have := hbelow last hlast
      exact ⟨⟨ordinal, by simp, by omega⟩, fun _ => by omega⟩
    · exact ⟨⟨last, by rw [if_neg hp]; exact hlast, hle⟩, fun he => absurd he.symm hp⟩
  have hnew : s.registry.epochs[(⟨principal, ordinal⟩ : ReplayKey)]? = none := by
    cases he : s.registry.epochs[(⟨principal, ordinal⟩ : ReplayKey)]? with
    | none => rfl
    | some entry =>
      have := (hold _ _ (h.leases.active _ entry he).2).2 rfl
      simp only at this
      omega
  refine ⟨h.cells, h.once, ?_, ?_, ?_, ⟨?_, ?_⟩, ?_, ?_, ?_⟩
  · intro k e hk sequence cell hop
    rcases setEntry_cases hk with ⟨-, rfl⟩ | hk
    · simp at hop
    · exact h.known k e hk sequence cell hop
  · intro g hg
    rcases h.kept g hg with ⟨e, hk, hholds⟩ | hretired
    · refine .inl ⟨e, ?_, hholds⟩
      rw [setEntry_get, if_neg]
      · exact hk
      · intro hkey
        rw [← hkey, hnew] at hk
        cases hk
    · exact .inr hretired
  · intro k e hk
    rcases setEntry_cases hk with ⟨rfl, -⟩ | hk
    · exact List.mem_append_right _ (List.mem_singleton_self _)
    · exact List.mem_append_left _ (h.owned k e hk)
  · intro k e hk
    rcases setEntry_cases hk with ⟨rfl, -⟩ | hk
    · refine ⟨?_, ordinal, by simp, Nat.le_refl _⟩
      show s.registry.retiredThrough[principal]?.getD 0 < ordinal
      cases hr : s.registry.retiredThrough[principal]? with
      | none => rw [Option.getD_none]; omega
      | some floor => exact (hold _ _ (h.leases.retired _ _ hr)).2 rfl
    · obtain ⟨hfloor, hissued⟩ := h.leases.active k e hk
      exact ⟨hfloor, (hold _ _ hissued).1⟩
  · exact fun p floor hf => (hold _ _ (h.leases.retired p floor hf)).1
  · cases hi : s.registry.issuedThrough[principal]? with
    | none => exact OrdMap.size_insert_le.trans (hprincipals hi)
    | some last => exact (OrdMap.size_insert_of_mem hi).le.trans h.principals
  · exact OrdMap.size_insert_le.trans hroom
  · intro k e hk
    rcases setEntry_cases hk with ⟨-, rfl⟩ | hk
    · simp
    · exact h.results k e hk

theorem issue_inv (h : s.Inv) (principal : AttachmentPrincipal)
    {seen : Nat → ReplayKey → ReplayKey → Bool} (honest : ∀ n, s.registry.Honest s.cells (seen n)) :
    (s.issue principal seen).2.Inv := by
  unfold issue ReplayRegistry.issue
  dsimp only
  split
  · exact h
  rename_i hfull
  split
  · exact h
  rename_i ordinal hordinal
  have hshrunk := ReplayRegistry.makeRoom_shrunk (s.registry.epochs.size + 1) h.leases honest
  split
  · rename_i r hroom
    rw [hroom] at hshrunk
    exact shrunk_inv h hshrunk
  · rename_i r hroom
    have hsize := ReplayRegistry.makeRoom_room h.leases honest (Nat.lt_succ_self _) hroom
    rw [hroom] at hshrunk
    have hsame := r.nextAccess_same
    have hissued : r.nextAccess.2.issuedThrough = s.registry.issuedThrough :=
      hsame.issued.trans hshrunk.issued
    refine lease_inv (same_inv (shrunk_inv h hshrunk) hsame) ?_ ?_ ?_ r.nextAccess.1
    · dsimp only
      rw [hissued]
      exact checkedNext_some hordinal
    · exact hsame.size.trans_lt hsize
    · dsimp only
      rw [hissued]
      intro hnone
      have := not_and.mp hfull hnone
      omega

theorem register_inv [DecidableEq F] (h : s.Inv) (principal : AttachmentPrincipal)
    (wide : operationId.sequence < 2 ^ 64) (fingerprint : F) :
    (s.register principal operationId fingerprint).2.Inv := by
  have hsame := same_inv h s.registry.nextAccess_same
  obtain ⟨out, hreg, hout⟩ := s.register_spec principal operationId fingerprint
  rw [hout]
  generalize ReplayKey.new principal operationId.lease.ordinal = key at hreg ⊢
  cases hreg with
  | refused bad => exact h
  | absent missing => exact hsame
  | @entry entry result epoch cells' incarnation positive found outcome =>
    have hwide : ∀ sequence c : Nat, entry.epoch.operations[sequence]? = some c →
        sequence < 2 ^ 64 := fun q c hq => (hsame.known _ entry found q c hq).2.2
    have htrim : ReplayEpoch.Trimmed s.cells entry.epoch _ :=
      ReplayEpoch.makeRoom_trimmed (entry.epoch.operations.size + 1) entry.epoch hwide
    cases outcome with
    | join | mismatch | below => exact trim_inv hsame found (.refl _ _) _
    | full absent low room =>
      rw [room] at htrim
      exact trim_inv hsame found htrim _
    | @execute epoch' absent low room =>
      rw [room] at htrim
      have hsize := ReplayEpoch.makeRoom_room (Nat.lt_succ_self _) room
      have hfresh := hsame.fresh found absent (not_lt.mp low)
      exact grant_inv hsame found htrim hfresh hsize ⟨Nat.pos_of_ne_zero positive, wide⟩
        s.registry.nextAccess.1 fingerprint

/-! ## What a run keeps -/

theorem step_inv [DecidableEq F] (h : Step s s') (hs : s.Inv) : s'.Inv := by
  cases h with
  | issue principal seen honest => exact issue_inv hs principal honest
  | register principal operationId fingerprint wide => exact register_inv hs principal wide fingerprint
  | complete cell result => exact complete_inv hs cell result

theorem issue_incarnation (h : s.Inv) (principal : AttachmentPrincipal)
    {seen : Nat → ReplayKey → ReplayKey → Bool} (honest : ∀ n, s.registry.Honest s.cells (seen n)) :
    (s.issue principal seen).2.registry.incarnation = s.registry.incarnation := by
  have hshrunk := ReplayRegistry.makeRoom_shrunk (s.registry.epochs.size + 1) h.leases honest
  unfold issue ReplayRegistry.issue
  dsimp only
  split
  · rfl
  split
  · rfl
  split
  · rename_i r hroom
    rw [hroom] at hshrunk
    exact hshrunk.incarnation
  · rename_i r hroom
    rw [hroom] at hshrunk
    exact r.nextAccess_same.incarnation.trans hshrunk.incarnation

theorem register_incarnation [DecidableEq F] (s : Replay F Res) (principal : AttachmentPrincipal)
    (operationId : OperationId) (fingerprint : F) :
    (s.register principal operationId fingerprint).2.registry.incarnation =
      s.registry.incarnation := by
  obtain ⟨out, hreg, hout⟩ := s.register_spec principal operationId fingerprint
  rw [hout]
  cases hreg with
  | refused bad => rfl
  | absent missing => exact s.registry.nextAccess_same.incarnation
  | entry incarnation positive found outcome => exact s.registry.nextAccess_same.incarnation

theorem reachable_inv [DecidableEq F] {incarnation : DaemonIncarnation}
    (h : ReflTransGen Step (start incarnation) s) :
    s.Inv ∧ s.registry.incarnation = incarnation := by
  have hpreserved : Preserved (Step : Replay F Res → Replay F Res → Prop) fun s =>
      s.Inv ∧ s.registry.incarnation = incarnation := by
    rintro s s' hstep ⟨hinv, rfl⟩
    refine ⟨step_inv hstep hinv, ?_⟩
    cases hstep with
    | issue principal seen honest => exact issue_incarnation hinv principal honest
    | register principal operationId fingerprint wide =>
      exact register_incarnation s principal operationId fingerprint
    | complete cell result => rfl
  exact hpreserved.run h ⟨.start incarnation, rfl⟩

theorem step_result [DecidableEq F] (h : Step s s') {r : Res} (hr : s.cells.result cell = some r) :
    s'.cells.result cell = some r := by
  cases h with
  | issue principal seen honest => exact hr
  | complete ended result => exact result_complete hr ended result
  | register principal operationId fingerprint wide =>
    obtain ⟨out, hreg, hout⟩ := s.register_spec principal operationId fingerprint
    rw [hout]
    cases hreg with
    | refused bad => exact hr
    | absent missing => exact hr
    | entry incarnation positive found outcome =>
      cases outcome with
      | join | mismatch | below | full => exact hr
      | execute absent low room => exact result_append hr _

theorem step_granted [DecidableEq F] (h : Step s s') {g : Grant} (hg : g ∈ s.granted) :
    g ∈ s'.granted := by
  cases h with
  | issue principal seen honest => exact hg
  | complete ended result => exact hg
  | register principal operationId fingerprint wide =>
    unfold register registered
    dsimp only
    split
    · exact List.mem_append_left _ hg
    · exact hg

/-! ## The guarantees -/

def retained (s : Replay F Res) (key : ReplayKey) (sequence : Nat) : Option Nat :=
  s.registry.epochs[key]?.bind fun entry => entry.epoch.operations[sequence]?

theorem retained_same (h : s.registry.nextAccess.2.epochs[key]? = some entry) (sequence : Nat) :
    s.retained key sequence = entry.epoch.operations[sequence]? := by
  obtain ⟨entry', he, heq⟩ := s.registry.nextAccess_same.lookup h
  rw [← heq, retained, he]
  rfl

/-- Requests that must not execute. -/
inductive Forbidden (s : Replay F Res) (key : ReplayKey) (operationId : OperationId)
    (fingerprint : F) : Prop where
  | mismatch {cell : Nat} {c : OperationCell F Res}
      (found : s.retained key operationId.sequence = some cell) (get : s.cells[cell]? = some c)
      (other : c.fingerprint ≠ fingerprint)
  | evicted {entry : ReplayEpochEntry} (found : s.registry.epochs[key]? = some entry)
      (absent : entry.epoch.operations[operationId.sequence]? = none)
      (low : operationId.sequence < entry.epoch.lowWater)
  | forgotten {g : Grant} (mem : g ∈ s.granted) (same : g.key = key)
      (sequence : g.sequence = operationId.sequence)
      (absent : s.retained key operationId.sequence = none)
  | retired {floor : Nat} (found : s.registry.retiredThrough[key.principal]? = some floor)
      (le : key.leaseOrdinal ≤ floor)
  | unissued (notMem : key ∉ s.issued)
  | incarnation (other : operationId.lease.daemonIncarnation ≠ s.registry.incarnation)

theorem Inv.in_flight (h : s.Inv) {g : Grant} (hg : g ∈ s.granted)
    (hlive : s.cells.isComplete g.cell = false) : s.retained g.key g.sequence = some g.cell := by
  rcases h.kept g hg with ⟨entry, he, hop | ⟨-, hc⟩⟩ | ⟨hc, -⟩
  · rw [retained, he]
    exact hop
  · rw [hlive] at hc
    cases hc
  · rw [hlive] at hc
    cases hc

theorem Inv.retained_granted (h : s.Inv) (hr : s.retained key sequence = some cell) :
    ⟨key, sequence, cell⟩ ∈ s.granted ∧ 0 < sequence := by
  obtain ⟨entry, he, hop⟩ := Option.bind_eq_some_iff.mp hr
  obtain ⟨hmem, hpos, -⟩ := h.known key entry he sequence cell hop
  exact ⟨hmem, hpos⟩

theorem register_granted [DecidableEq F] (h : s.Inv) {registration : ReplayRegistration}
    (hr : s.register principal operationId fingerprint = (.ok registration, s')) :
    ⟨.new principal operationId.lease.ordinal, operationId.sequence, registration.cell⟩ ∈
      s'.granted := by
  obtain ⟨out, hreg, hout⟩ := s.register_spec principal operationId fingerprint
  rw [hout] at hr
  cases hreg with
  | refused bad => cases hr
  | absent missing => cases hr
  | entry incarnation positive found outcome =>
    cases outcome with
    | join retained same =>
      obtain ⟨hok, rfl⟩ := Prod.mk.inj hr
      obtain rfl := Except.ok.inj hok
      exact (h.retained_granted ((retained_same found _).trans retained)).1
    | execute absent low room =>
      obtain ⟨hok, rfl⟩ := Prod.mk.inj hr
      obtain rfl := Except.ok.inj hok
      exact List.mem_append_right _ List.mem_cons_self
    | mismatch | below | full => cases hr

theorem register_join [DecidableEq F] (h : s.Inv) {c : OperationCell F Res}
    (hinc : operationId.lease.daemonIncarnation = s.registry.incarnation)
    (hret : s.retained (.new principal operationId.lease.ordinal) operationId.sequence = some cell)
    (hc : s.cells[cell]? = some c) (hf : c.fingerprint = fingerprint) :
    (s.register principal operationId fingerprint).1 = .ok (.join cell) ∧
      (s.register principal operationId fingerprint).2.granted = s.granted := by
  obtain ⟨entry, he, hop⟩ := Option.bind_eq_some_iff.mp hret
  have hpos := (h.retained_granted hret).2
  obtain ⟨hfloor, last, hlast, hle⟩ := h.leases.active _ entry he
  obtain ⟨out, hreg, hout⟩ := s.register_spec principal operationId fingerprint
  rw [hout]
  cases hreg with
  | refused bad =>
    rcases bad with hbad | hbad | hbad | ⟨floor, hf', hle'⟩ | hbad
    · exact absurd hinc hbad
    · omega
    · exact absurd rfl hbad
    · rw [hf', Option.getD_some] at hfloor
      omega
    · exact absurd (hbad last hlast) (by omega)
  | absent missing =>
    obtain ⟨entry', he', -⟩ := s.registry.nextAccess_same.symm.lookup he
    rw [missing] at he'
    cases he'
  | entry incarnation positive found outcome =>
    rw [retained_same found] at hret
    cases outcome with
    | join retained same =>
      obtain rfl := Option.some.inj (retained.symm.trans hret)
      exact ⟨rfl, rfl⟩
    | mismatch retained found other =>
      obtain rfl := Option.some.inj (retained.symm.trans hret)
      obtain rfl := Option.some.inj (found.symm.trans hc)
      exact absurd hf other
    | below absent low | full absent low room | execute absent low room =>
      rw [absent] at hret
      cases hret

theorem register_forbidden [DecidableEq F] (h : s.Inv)
    (hforbidden : s.Forbidden (.new principal operationId.lease.ordinal) operationId fingerprint) :
    (s.register principal operationId fingerprint).1 = .error outcomeUnknown ∧
      (s.register principal operationId fingerprint).2.granted = s.granted := by
  obtain ⟨out, hreg, hout⟩ := s.register_spec principal operationId fingerprint
  rw [hout]
  cases hreg with
  | refused bad => exact ⟨rfl, rfl⟩
  | absent missing => exact ⟨rfl, rfl⟩
  | @entry entry result epoch cells' incarnation positive found outcome =>
    obtain ⟨entry', hentry, hepoch⟩ := s.registry.nextAccess_same.lookup found
    have hret := retained_same found operationId.sequence
    -- what is forbidden is retained under another fingerprint, or below the low-water mark
    have hcase : (∃ cell c, entry.epoch.operations[operationId.sequence]? = some cell ∧
        s.cells[cell]? = some c ∧ c.fingerprint ≠ fingerprint) ∨
        entry.epoch.operations[operationId.sequence]? = none ∧
          operationId.sequence < entry.epoch.lowWater := by
      cases hforbidden with
      | mismatch found get other => exact .inl ⟨_, _, hret.symm.trans found, get, other⟩
      | evicted found absent low =>
        obtain rfl := Option.some.inj (hentry.symm.trans found)
        exact .inr (hepoch ▸ ⟨absent, low⟩)
      | forgotten mem same sequence absent =>
        rw [hret] at absent
        refine .inr ⟨absent, not_le.mp fun hlow => ?_⟩
        have hnew := h.fresh hentry (hepoch ▸ absent) (hepoch ▸ hlow)
        exact hnew (List.mem_map.mpr ⟨_, mem, by rw [same, sequence]⟩)
      | retired found le =>
        have := (h.leases.active _ _ hentry).1
        rw [found, Option.getD_some] at this
        omega
      | unissued notMem => exact absurd (h.owned _ _ hentry) notMem
      | incarnation other => exact absurd incarnation other
    cases outcome with
    | join retained same =>
      rcases hcase with ⟨cell, c, hop, get, other⟩ | ⟨hnone, -⟩
      · obtain rfl := Option.some.inj (retained.symm.trans hop)
        exact absurd (same c get) other
      · cases retained.symm.trans hnone
    | mismatch | below => exact ⟨rfl, rfl⟩
    | full absent low | execute absent low =>
      rcases hcase with ⟨cell, c, hop, -⟩ | ⟨-, hlow⟩
      · cases absent.symm.trans hop
      · exact absurd hlow low

theorem Inv.retired_size (h : s.Inv) :
    s.registry.retiredThrough.size ≤ maxReplayPrincipals := by
  refine le_trans (OrdMap.size_le_of_keys fun principal floor hfloor => ?_) h.principals
  obtain ⟨last, hlast, -⟩ := h.leases.retired principal floor hfloor
  exact ⟨last, hlast⟩

/-- At most one execution of each operation, replayed exactly. -/
theorem executes_at_most_once [DecidableEq F] {incarnation : DaemonIncarnation} {s : Replay F Res}
    (h : ReflTransGen Step (start incarnation) s) :
    (s.granted.map fun g => (g.key, g.sequence)).Nodup ∧
    (∀ g ∈ s.granted, s.cells.isComplete g.cell = false →
      s.retained g.key g.sequence = some g.cell) ∧
    (∀ cell r, s.cells.result cell = some r → ∀ s', ReflTransGen Step s s' →
      s'.cells.result cell = some r) ∧
    (∀ principal operationId fingerprint cell c,
      operationId.lease.daemonIncarnation = incarnation →
      s.retained (.new principal operationId.lease.ordinal) operationId.sequence = some cell →
      s.cells[cell]? = some c → c.fingerprint = fingerprint →
        ⟨.new principal operationId.lease.ordinal, operationId.sequence, cell⟩ ∈ s.granted ∧
        (s.register principal operationId fingerprint).1 = .ok (.join cell) ∧
        (s.register principal operationId fingerprint).2.granted = s.granted) ∧
    (∀ principal operationId fingerprint,
      s.Forbidden (.new principal operationId.lease.ordinal) operationId fingerprint →
        (s.register principal operationId fingerprint).1 = .error outcomeUnknown ∧
        (s.register principal operationId fingerprint).2.granted = s.granted) ∧
    s.registry.issuedThrough.size ≤ maxReplayPrincipals ∧
    s.registry.retiredThrough.size ≤ maxReplayPrincipals ∧
    s.registry.epochs.size ≤ maxActiveOperationEpochs ∧
    ∀ (key : ReplayKey) (entry : ReplayEpochEntry), s.registry.epochs[key]? = some entry →
      entry.epoch.operations.size ≤ operationResultsPerEpoch := by
  obtain ⟨hinv, hinc⟩ := reachable_inv h
  refine ⟨hinv.once, fun g hg => hinv.in_flight hg, ?_, ?_, ?_, hinv.principals,
    hinv.retired_size, hinv.epochs, hinv.results⟩
  · intro cell r hr s' hrun
    have hpreserved : Preserved (Step : Replay F Res → Replay F Res → Prop) fun s =>
        s.cells.result cell = some r := fun _ _ hstep => step_result hstep
    exact hpreserved.run hrun hr
  · intro principal operationId fingerprint cell c hlease hret hc hf
    have hjoin := register_join hinv (hlease.trans hinc.symm) hret hc hf
    exact ⟨(hinv.retained_granted hret).1, hjoin⟩
  · intro principal operationId fingerprint hforbidden
    exact register_forbidden hinv hforbidden

def sample : Replay Nat Nat :=
  ((((start 7 : Replay Nat Nat).issue (.localSameUid 1 2) fun _ _ _ => false).2.register
    (.localSameUid 1 2) ⟨⟨7, 1⟩, 5⟩ 40).2).complete 0 9

theorem executes_at_most_once_sample :
    sample.granted = [⟨.new (.localSameUid 1 2) 1, 5, 0⟩] ∧
    (sample.register (.localSameUid 1 2) ⟨⟨7, 1⟩, 5⟩ 40).1 = .ok (.join 0) ∧
    sample.cells.result 0 = some 9 ∧
    (sample.register (.remoteEndpoint 1 3) ⟨⟨7, 1⟩, 5⟩ 40).1 = .error outcomeUnknown := by
  have hrun : ReflTransGen Step (start 7) sample :=
    .tail (.tail (.tail .refl (.issue _ _ _ nofun)) (.register _ _ _ _ (by decide)))
      (.complete _ _ _)
  obtain ⟨-, -, -, hjoin, hforbidden, -⟩ := executes_at_most_once hrun
  refine ⟨by decide, (hjoin _ _ _ 0 ⟨40, some 9⟩ ?_ ?_ ?_ ?_).2.1, by decide,
    (hforbidden _ _ _ (.unissued ?_)).1⟩
  all_goals decide

end Replay

end Voytty.Daemon
