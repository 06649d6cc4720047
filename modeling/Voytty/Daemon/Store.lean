import Voytty.Core.Domain

/-!
# Inbound authorization rows

The state store keeps one `device_auth` row per remote device. A row is read
back through `projectAuthorization`, which refuses whatever the writers of this
file cannot have written. Each writer is one SQLite transaction: it returns the
new row, or an error and leaves the row as it was. What SQLite answers to each
call of the transaction is a parameter.
-/

namespace Voytty.Daemon

/-! ## Snapshots -/

inductive AuthorizationStatus where
  | none | authorized | revoked
  deriving DecidableEq, Repr

structure AuthorizationSnapshot where
  status : AuthorizationStatus
  generation : Nat
  deriving DecidableEq, Repr

namespace AuthorizationSnapshot

def absent : AuthorizationSnapshot := ⟨.none, 0⟩

/-- `a` is not newer than `b`: an older generation, or the same snapshot. -/
def Precedes (a b : AuthorizationSnapshot) : Prop :=
  a.generation < b.generation ∨ a = b

theorem Precedes.refl (a : AuthorizationSnapshot) : a.Precedes a := .inr rfl

theorem Precedes.trans {a b c : AuthorizationSnapshot} (h : a.Precedes b) (h' : b.Precedes c) :
    a.Precedes c := by
  rcases h with h | rfl
  · rcases h' with h' | rfl
    · exact .inl (h.trans h')
    · exact .inl h
  · exact h'

theorem Precedes.le {a b : AuthorizationSnapshot} (h : a.Precedes b) :
    a.generation ≤ b.generation := by
  rcases h with h | rfl
  · exact h.le
  · exact le_refl _

/-- One generation has one status. -/
theorem Precedes.lt_of_status {a b : AuthorizationSnapshot} (h : a.Precedes b)
    (hs : a.status ≠ b.status) : a.generation < b.generation := by
  rcases h with h | rfl
  · exact h
  · exact absurd rfl hs

end AuthorizationSnapshot

/-! ## Generations -/

/-- The ceiling of a signed 64-bit column. -/
def sqliteMax : Nat := 2 ^ 63 - 1

def storeUnavailable (detail : String) : DaemonError := ⟨.storeUnavailable, detail⟩

def deadlineExceeded (detail : String) : DaemonError := ⟨.deadlineExceeded, detail⟩

def checkedNextGeneration (current : Nat) : Except DaemonError Nat :=
  if current + 1 ≤ sqliteMax then .ok (current + 1)
  else .error (storeUnavailable
    "authorization generation exhausted the SQLite signed 64-bit ceiling")

theorem checkedNextGeneration_ok {current next : Nat} (h : checkedNextGeneration current = .ok next) :
    next = current + 1 ∧ next ≤ sqliteMax := by
  unfold checkedNextGeneration at h
  split at h
  · obtain rfl := Except.ok.inj h
    exact ⟨rfl, by assumption⟩
  · cases h

/-! ## Rows -/

def maxDeviceDisplayNameBytes : Nat := 128

/-- `char::is_control`. -/
def isControl (c : Char) : Bool := c.toNat < 0x20 || (0x7f ≤ c.toNat && c.toNat < 0xa0)

def displayNameError (value : String) : Option String :=
  if value.utf8ByteSize = 0 then some "device display name must not be empty"
  else if value.utf8ByteSize > maxDeviceDisplayNameBytes then
    some ("device display name must contain at most " ++ toString maxDeviceDisplayNameBytes ++
      " UTF-8 bytes, got " ++ toString value.utf8ByteSize)
  else if value.toList.any isControl then
    some "device display name must not contain control characters"
  else none

/-- A row's columns as SQLite stores them. -/
structure AuthorizationRow where
  displayName : String
  status : Int
  generation : Int
  pairedAtUnix : Int
  revokedAtUnix : Option Int
  lastSeenAtUnix : Option Int
  deriving DecidableEq, Repr

def validateTimestamp (value : Int) (column : String) : Except DaemonError Unit :=
  if value < 0 then
    .error (storeUnavailable (column ++ " " ++ toString value ++ " must not be negative"))
  else .ok ()

def validateInputTimestamp (value : Int) (field : String) : Except DaemonError Unit :=
  if value < 0 then .error ⟨.pairTicketInvalid, field ++ " must not be negative"⟩ else .ok ()

def authorizationStatusFromI64 (value : Int) (column : String) :
    Except DaemonError AuthorizationStatus :=
  if value = 1 then .ok .authorized
  else if value = 2 then .ok .revoked
  else .error (storeUnavailable ("unknown " ++ column ++ " value " ++ toString value))

def authGenerationFromI64 (value : Int) (column : String) : Except DaemonError Nat :=
  if value < 0 ∨ sqliteMax < value.toNat then
    .error (storeUnavailable (column ++ " " ++ toString value ++ " is not a valid generation"))
  else .ok value.toNat

/-- The tombstone belongs to revoked rows and to no other. -/
def checkTombstone : AuthorizationStatus → Option Int → Except DaemonError Unit
  | .authorized, none | .revoked, some _ => .ok ()
  | .authorized, some _ =>
    .error (storeUnavailable "authorized row must not carry a revocation tombstone")
  | .revoked, none => .error (storeUnavailable "revoked row must carry a revocation tombstone")
  | .none, _ => .error (storeUnavailable "authorization table row cannot use the absent status")

def checkStoredName (name : String) : Except DaemonError Unit :=
  match displayNameError name with
  | some error => .error (storeUnavailable ("authorization display name: " ++ error))
  | none => .ok ()

def checkNonzero (generation : Nat) : Except DaemonError Unit :=
  if generation = 0 then
    .error (storeUnavailable "authorization row uses the reserved zero generation")
  else .ok ()

def validateOptional (value : Option Int) (column : String) : Except DaemonError Unit :=
  match value with
  | some value => validateTimestamp value column
  | none => .ok ()

/-- A row as the daemon reads it, without the columns no caller here looks at. -/
def projectAuthorization (row : AuthorizationRow) : Except DaemonError AuthorizationSnapshot := do
  checkStoredName row.displayName
  let status ← authorizationStatusFromI64 row.status "authorization status"
  let generation ← authGenerationFromI64 row.generation "authorization generation"
  checkNonzero generation
  validateTimestamp row.pairedAtUnix "authorization pairing timestamp"
  validateOptional row.revokedAtUnix "authorization revocation timestamp"
  validateOptional row.lastSeenAtUnix "authorization last-seen timestamp"
  checkTombstone status row.revokedAtUnix
  return ⟨status, generation⟩

/-- What a row must satisfy to be read back as `snapshot`. -/
structure Projects (row : AuthorizationRow) (snapshot : AuthorizationSnapshot) : Prop where
  name : displayNameError row.displayName = none
  status : authorizationStatusFromI64 row.status "authorization status" = .ok snapshot.status
  generation : row.generation = snapshot.generation
  positive : 0 < snapshot.generation
  bounded : snapshot.generation ≤ sqliteMax
  paired : 0 ≤ row.pairedAtUnix
  revoked : ∀ value, row.revokedAtUnix = some value → 0 ≤ value
  lastSeen : ∀ value, row.lastSeenAtUnix = some value → 0 ≤ value
  tombstone : checkTombstone snapshot.status row.revokedAtUnix = .ok ()

variable {value nowUnix : Int} {column name : String} {generation : Nat}
  {row row' : Option AuthorizationRow} {snapshot : AuthorizationSnapshot} {sql : Sqlite}

theorem validateTimestamp_ok :
    validateTimestamp value column = .ok () ↔ 0 ≤ value := by
  unfold validateTimestamp
  split <;> simp_all

theorem validateOptional_ok {value : Option Int} :
    validateOptional value column = .ok () ↔ ∀ v, value = some v → 0 ≤ v := by
  cases value with
  | none => simp [validateOptional]
  | some v => simp [validateOptional, validateTimestamp_ok]

theorem authGenerationFromI64_ok :
    authGenerationFromI64 value column = .ok generation ↔
      value = generation ∧ generation ≤ sqliteMax := by
  unfold authGenerationFromI64
  split
  · rename_i hbad
    simp only [reduceCtorEq, false_iff]
    rintro ⟨rfl, hle⟩
    omega
  · rename_i hgood
    simp only [Except.ok.injEq]
    omega

theorem checkStoredName_ok :
    checkStoredName name = .ok () ↔ displayNameError name = none := by
  unfold checkStoredName
  split <;> simp_all

theorem checkNonzero_ok : checkNonzero generation = .ok () ↔ 0 < generation := by
  unfold checkNonzero
  split <;> simp_all [Nat.pos_iff_ne_zero]

theorem projectAuthorization_ok {row : AuthorizationRow} :
    projectAuthorization row = .ok snapshot ↔ Projects row snapshot := by
  simp only [projectAuthorization, bind_ok, Unique.exists_iff, PUnit.default_eq_unit,
    checkStoredName_ok, checkNonzero_ok, validateTimestamp_ok, validateOptional_ok,
    authGenerationFromI64_ok]
  constructor
  · rintro ⟨hname, status, hstatus, generation, ⟨hgen, hle⟩, hpos, hpaired, hrevoked, hseen, htomb,
      heq⟩
    obtain rfl := Except.ok.inj heq
    exact ⟨hname, hstatus, hgen, hpos, hle, hpaired, hrevoked, hseen, htomb⟩
  · intro h
    exact ⟨h.name, _, h.status, _, ⟨h.generation, h.bounded⟩, h.positive, h.paired, h.revoked,
      h.lastSeen, h.tombstone, rfl⟩

/-! ## Transactions -/

/-- What SQLite answers to each call of a transaction: nothing, or a failure. -/
structure Sqlite where
  begin : Option String := none
  query : Option String := none
  execute : Option String := none
  commit : Option String := none

/-- `map_err(store_error)`. -/
def storeCall : Option String → Except DaemonError Unit
  | none => .ok ()
  | some error => .error (storeUnavailable error)

def rowGeneration : Option AuthorizationRow → Except DaemonError Nat
  | none => .ok 0
  | some row => (·.generation) <$> projectAuthorization row

/-- `DeviceDisplayName::new` on a caller's name. -/
def checkRemoteName (displayName : String) : Except DaemonError Unit :=
  match displayNameError displayName with
  | some error => .error ⟨.pairTicketInvalid, "invalid remote display name: " ++ error⟩
  | none => .ok ()

def authorizeDevice (sql : Sqlite) (row : Option AuthorizationRow) (displayName : String)
    (nowUnix : Int) : Except DaemonError (Nat × Option AuthorizationRow) := do
  checkRemoteName displayName
  validateInputTimestamp nowUnix "pairing timestamp"
  storeCall sql.begin
  storeCall sql.query
  let current ← rowGeneration row
  let next ← checkedNextGeneration current
  storeCall sql.execute
  storeCall sql.commit
  -- the conflict clause keeps the last-seen column
  return (next, some
    { displayName, status := 1, generation := next, pairedAtUnix := nowUnix
      revokedAtUnix := none, lastSeenAtUnix := row.bind (·.lastSeenAtUnix) })

def deviceNotFound : DaemonError := ⟨.deviceNotFound, "no inbound authorization record for device"⟩

def revokeDevice (sql : Sqlite) (row : Option AuthorizationRow) (nowUnix : Int) :
    Except DaemonError (Nat × Option AuthorizationRow) := do
  validateInputTimestamp nowUnix "revocation timestamp"
  storeCall sql.begin
  storeCall sql.query
  match row with
  | none => throw deviceNotFound
  | some row =>
    let current ← projectAuthorization row
    -- a repeated revoke is idempotent
    if current.status = .revoked then return (current.generation, some row)
    let next ← checkedNextGeneration current.generation
    storeCall sql.execute
    storeCall sql.commit
    return (next, some { row with status := 2, generation := next, revokedAtUnix := some nowUnix })

def authorizationSnapshot (sql : Sqlite) (row : Option AuthorizationRow) :
    Except DaemonError AuthorizationSnapshot := do
  storeCall sql.query
  match row with
  | none => return .absent
  | some row => projectAuthorization row

def setLastSeen (sql : Sqlite) (row : Option AuthorizationRow) (nowUnix : Int) :
    Except DaemonError (Option AuthorizationRow) := do
  validateInputTimestamp nowUnix "last-seen timestamp"
  storeCall sql.begin
  storeCall sql.execute
  match row with
  | none => throw deviceNotFound
  | some row =>
    storeCall sql.commit
    return some { row with lastSeenAtUnix := some nowUnix }

/-! ## What a transaction does -/

/-- A row that can be read back, or no row. -/
def RowOk (row : Option AuthorizationRow) : Prop :=
  ∀ r, row = some r → ∃ snapshot, Projects r snapshot

def durable : Option AuthorizationRow → AuthorizationSnapshot
  | none => .absent
  | some row => ⟨if row.status = 1 then .authorized else .revoked, row.generation.toNat⟩

theorem Projects.durable_eq {row : AuthorizationRow} (h : Projects row snapshot) :
    durable (some row) = snapshot := by
  have hs := h.status
  have hg : row.generation.toNat = snapshot.generation := by
    have := h.generation
    omega
  unfold authorizationStatusFromI64 at hs
  split at hs
  · rename_i hone
    simp [durable, hone, hg, Except.ok.inj hs]
  split at hs
  · rename_i htwo
    simp [durable, htwo, hg, Except.ok.inj hs]
  · cases hs

theorem durable_positive {row : AuthorizationRow} (h : RowOk (some row)) :
    0 < (durable (some row)).generation := by
  obtain ⟨snapshot, hp⟩ := h row rfl
  rw [hp.durable_eq]
  exact hp.positive

theorem checkRemoteName_ok :
    checkRemoteName name = .ok () ↔ displayNameError name = none := by
  unfold checkRemoteName
  split <;> simp_all

theorem validateInputTimestamp_ok {field : String} :
    validateInputTimestamp value field = .ok () ↔ 0 ≤ value := by
  unfold validateInputTimestamp
  split <;> simp_all

theorem rowGeneration_ok (hrow : RowOk row) (h : rowGeneration row = .ok generation) :
    generation = (durable row).generation := by
  cases row with
  | none => exact (Except.ok.inj h).symm
  | some r =>
    obtain ⟨snapshot, hp⟩ := hrow r rfl
    rw [rowGeneration, projectAuthorization_ok.mpr hp] at h
    rw [hp.durable_eq]
    exact (Except.ok.inj h).symm

theorem authorizeDevice_ok (hrow : RowOk row)
    (h : authorizeDevice sql row name nowUnix = .ok (generation, row')) :
    RowOk row' ∧ durable row' = ⟨.authorized, generation⟩ ∧
      generation = (durable row).generation + 1 := by
  simp only [authorizeDevice, bind_ok, Unique.exists_iff, PUnit.default_eq_unit,
    checkRemoteName_ok, validateInputTimestamp_ok] at h
  obtain ⟨hname, hnow, -, -, current, hcurrent, next, hnext, -, -, heq⟩ := h
  obtain ⟨rfl, rfl⟩ := Prod.mk.inj (Except.ok.inj heq)
  obtain ⟨hsucc, hle⟩ := checkedNextGeneration_ok hnext
  have hp : Projects ⟨name, 1, next, nowUnix, none, row.bind (·.lastSeenAtUnix)⟩
      ⟨.authorized, next⟩ := by
    refine ⟨hname, rfl, rfl, hsucc ▸ Nat.succ_pos current, hle, hnow, by simp, fun value hv => ?_, rfl⟩
    obtain ⟨r, hr, hseen⟩ := Option.bind_eq_some_iff.mp hv
    obtain ⟨snapshot, hold⟩ := hrow r hr
    exact hold.lastSeen value hseen
  refine ⟨fun r hr => ?_, hp.durable_eq, ?_⟩
  · obtain rfl := Option.some.inj hr
    exact ⟨_, hp⟩
  · rw [hsucc, rowGeneration_ok hrow hcurrent]

theorem revokeDevice_ok (hrow : RowOk row)
    (h : revokeDevice sql row nowUnix = .ok (generation, row')) :
    RowOk row' ∧ durable row' = ⟨.revoked, generation⟩ ∧
      (row' = row ∨ generation = (durable row).generation + 1) := by
  simp only [revokeDevice, bind_ok, Unique.exists_iff, PUnit.default_eq_unit,
    validateInputTimestamp_ok] at h
  obtain ⟨hnow, -, -, h⟩ := h
  cases row with
  | none => cases h
  | some r =>
    obtain ⟨current, hcurrent⟩ := hrow r rfl
    simp only [bind_ok] at h
    obtain ⟨_, hcur, h⟩ := h
    obtain rfl := Except.ok.inj ((projectAuthorization_ok.mpr hcurrent).symm.trans hcur)
    split at h
    · rename_i hrevoked
      obtain ⟨rfl, rfl⟩ := Prod.mk.inj (Except.ok.inj h)
      refine ⟨hrow, ?_, .inl rfl⟩
      rw [hcurrent.durable_eq, ← hrevoked]
    · simp only [bind_ok, Unique.exists_iff, PUnit.default_eq_unit] at h
      obtain ⟨next, hnext, -, -, heq⟩ := h
      obtain ⟨rfl, rfl⟩ := Prod.mk.inj (Except.ok.inj heq)
      obtain ⟨hsucc, hle⟩ := checkedNextGeneration_ok hnext
      have hp : Projects { r with status := 2, generation := next, revokedAtUnix := some nowUnix }
          ⟨.revoked, next⟩ :=
        { hcurrent with
          status := rfl
          generation := rfl
          positive := hsucc ▸ Nat.succ_pos _
          bounded := hle
          revoked := fun value hv => Option.some.inj hv ▸ hnow
          tombstone := rfl }
      refine ⟨fun r' hr => ?_, hp.durable_eq, .inr ?_⟩
      · obtain rfl := Option.some.inj hr
        exact ⟨_, hp⟩
      · rw [hcurrent.durable_eq, hsucc]

theorem setLastSeen_ok (hrow : RowOk row) (h : setLastSeen sql row nowUnix = .ok row') :
    RowOk row' ∧ durable row' = durable row := by
  simp only [setLastSeen, bind_ok, Unique.exists_iff, PUnit.default_eq_unit,
    validateInputTimestamp_ok] at h
  obtain ⟨hnow, -, -, h⟩ := h
  cases row with
  | none => cases h
  | some r =>
    simp only [bind_ok, Unique.exists_iff] at h
    obtain rfl := Except.ok.inj h.2
    obtain ⟨snapshot, hp⟩ := hrow r rfl
    refine ⟨fun r' hr => ⟨snapshot, ?_⟩, rfl⟩
    obtain rfl := Option.some.inj hr
    exact { hp with lastSeen := fun value hv => Option.some.inj hv ▸ hnow }

theorem authorizationSnapshot_ok (hrow : RowOk row)
    (h : authorizationSnapshot sql row = .ok snapshot) : snapshot = durable row := by
  simp only [authorizationSnapshot, bind_ok, Unique.exists_iff, PUnit.default_eq_unit] at h
  obtain ⟨-, h⟩ := h
  cases row with
  | none => exact (Except.ok.inj h).symm
  | some r => exact (projectAuthorization_ok.mp h).durable_eq.symm

end Voytty.Daemon
