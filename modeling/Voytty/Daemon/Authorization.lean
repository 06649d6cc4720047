import Voytty.Daemon.CommandGate

/-!
# The authorization registry

The registry mirrors a device's row in memory, behind one fair lock per device. A
remote effect runs under the read permit; a pairing that authorizes the device
and a revocation take the write permit, ask the store for the new generation and
publish it. `Authority` is one device: its row, its entry in the registry, who
holds the lock, and every command the store was asked to run, also those whose
caller has gone.
-/

namespace Voytty.Daemon

/-! ## The registry's entry -/

structure AuthEntry where
  state : AuthorizationSnapshot
  watch : AuthorizationSnapshot
  deriving DecidableEq, Repr

def AuthEntry.new (snapshot : AuthorizationSnapshot) : AuthEntry := ⟨snapshot, snapshot⟩

def genericUnauthorized : DaemonError :=
  ⟨.unauthorized, "device is not authorized to control this host"⟩

def staleGeneration : DaemonError :=
  ⟨.authorizationRevoked, "authorization generation changed since connection admission"⟩

def validateSnapshot (snapshot : AuthorizationSnapshot) : Except DaemonError Unit :=
  let valid : Bool := match snapshot.status with
    | .none => snapshot.generation == 0
    | .authorized | .revoked => snapshot.generation != 0
  if valid then .ok ()
  else .error (storeUnavailable "authorization snapshot status and generation are inconsistent")

def preload (snapshot : AuthorizationSnapshot) : Except DaemonError AuthEntry := do
  validateSnapshot snapshot
  return AuthEntry.new snapshot

/-- The generation a connection is accepted under. -/
def admission (entry : Option AuthEntry) : Except DaemonError AuthorizationSnapshot :=
  match entry with
  | none => .error genericUnauthorized
  | some entry =>
    if entry.watch.status ≠ .authorized then .error genericUnauthorized else .ok entry.watch

/-- The check made under the read permit. -/
def acquireCommit (entry : Option AuthEntry) (expectedGeneration : Nat) :
    Except DaemonError Unit :=
  match entry with
  | none => .error genericUnauthorized
  | some entry =>
    if entry.state.status ≠ .authorized then .error genericUnauthorized
    else if entry.state.generation ≠ expectedGeneration then .error staleGeneration
    else .ok ()

/-- `authorize_guard` makes a missing entry. -/
def entryOrInsert (entry : Option AuthEntry) : AuthEntry := entry.getD (AuthEntry.new .absent)

/-- `revoke_guard` wants one. -/
def revokeGuard (entry : Option AuthEntry) : Except DaemonError AuthEntry :=
  match entry with
  | none => .error deviceNotFound
  | some entry => .ok entry

/-! ## What a writer makes of the store's answer -/

inductive Verdict where
  | publish (generation : Nat)
  | reread
  | rollback
  deriving DecidableEq, Repr

/-- `authorize_consumption` on the outcome of its command. -/
def authorizeVerdict : Except DaemonError Nat → Verdict
  | .ok generation => .publish generation
  | .error error => if error.kind = .operationOutcomeUnknown then .reread else .rollback

/-- The generation to publish after an ambiguous command, if the row shows its effect. -/
def rereadVerdict (prior : AuthorizationSnapshot)
    (snapshot : Except DaemonError AuthorizationSnapshot) : Option Nat :=
  match snapshot with
  | .ok snapshot =>
    if snapshot.status = .authorized ∧ snapshot.generation > prior.generation then
      some snapshot.generation
    else none
  | .error _ => none

/-! ## Commands -/

inductive StoreWrite where
  | authorize (displayName : String) (nowUnix : Int)
  | revoke (nowUnix : Int)
  deriving DecidableEq, Repr

namespace StoreWrite

def run (write : StoreWrite) (sql : Sqlite) (row : Option AuthorizationRow) :
    Except DaemonError (Nat × Option AuthorizationRow) :=
  match write with
  | authorize displayName nowUnix => authorizeDevice sql row displayName nowUnix
  | revoke nowUnix => revokeDevice sql row nowUnix

def status : StoreWrite → AuthorizationStatus
  | authorize _ _ => .authorized
  | revoke _ => .revoked

theorem run_ok {write : StoreWrite} {sql : Sqlite} {row row' : Option AuthorizationRow}
    {generation : Nat} (hrow : RowOk row) (h : write.run sql row = .ok (generation, row')) :
    RowOk row' ∧ durable row' = ⟨write.status, generation⟩ ∧
      (durable row).Precedes (durable row') := by
  cases write with
  | authorize displayName nowUnix =>
    obtain ⟨hok, hd, hsucc⟩ := authorizeDevice_ok hrow h
    exact ⟨hok, hd, .inl (by rw [hd]; simp only; omega)⟩
  | revoke nowUnix =>
    obtain ⟨hok, hd, rfl | hsucc⟩ := revokeDevice_ok hrow h
    · exact ⟨hok, hd, .refl _⟩
    · exact ⟨hok, hd, .inl (by rw [hd]; simp only; omega)⟩

end StoreWrite

structure Pending where
  write : StoreWrite
  call : Call Nat

/-! ## One device -/

/-- How far the holder of the write permit has come. -/
inductive Writer where
  | revoking (pending : Option Nat)
  | authorizing (prior : AuthorizationSnapshot) (pending : Option Nat)
  | rereading (prior : AuthorizationSnapshot) (pending : Nat) (read : Call AuthorizationSnapshot)
  | publishing (snapshot : AuthorizationSnapshot)
  /-- the locked state is written, the subscribers not yet woken -/
  | waking (snapshot : AuthorizationSnapshot)
  | published

/-- The command whose outcome the writer has not published. -/
def Writer.owns : Writer → Option Nat
  | revoking pending | authorizing _ pending => pending
  | rereading _ pending _ => some pending
  | publishing _ | waking _ | published => none

structure Authority where
  row : Option AuthorizationRow
  entry : Option AuthEntry
  writer : Option Writer := none
  effects : List Nat := []
  /-- the generations connections were accepted under -/
  accepted : List Nat := []
  calls : List Pending := []

namespace Authority

def boot (row : Option AuthorizationRow) : Except DaemonError Authority :=
  match row with
  | none => .ok { row, entry := none }
  | some r => do
    let snapshot ← projectAuthorization r
    let entry ← preload snapshot
    return { row, entry := some entry }

def setCall (s : Authority) (i : Nat) (p : Pending) (call : Call Nat) : Authority :=
  { s with calls := s.calls.set i { p with call } }

def decide (s : Authority) (i : Nat) (p : Pending) (sql : Sqlite) : Authority :=
  match p.write.run sql s.row with
  | .ok (generation, row) => { s.setCall i p (.ran (.ok generation) .pending) with row }
  | .error error => s.setCall i p (.ran (.error error) .pending)

/-- A revocation after the outcome of its command: an error ends it where it stands. -/
def afterRevoke : Except DaemonError Nat → Option Writer
  | .ok generation => some (.publishing ⟨.revoked, generation⟩)
  | .error _ => none

def afterAuthorize (prior : AuthorizationSnapshot) (pending : Nat)
    (result : Except DaemonError Nat) : Option Writer :=
  match authorizeVerdict result with
  | .publish generation => some (.publishing ⟨.authorized, generation⟩)
  | .reread => some (.rereading prior pending .queued)
  | .rollback => none

def afterReread (prior : AuthorizationSnapshot)
    (result : Except DaemonError AuthorizationSnapshot) : Option Writer :=
  (rereadVerdict prior result).map fun generation => .publishing ⟨.authorized, generation⟩

/-- The store actor is inside a command: it runs one at a time. -/
def Busy (s : Authority) : Prop :=
  (∃ (i : Nat) (p : Pending), s.calls[i]? = some p ∧ p.call = .running) ∨
    ∃ prior i, s.writer = some (.rereading prior i .running)

/-- No permit of the lock is held. -/
def Free (s : Authority) : Prop := s.writer = none ∧ s.effects = []

inductive Step : Authority → Authority → Prop where
  | accept {s : Authority} {snapshot : AuthorizationSnapshot} (h : admission s.entry = .ok snapshot) :
      Step s { s with accepted := snapshot.generation :: s.accepted }
  | begin {s : Authority} {generation : Nat} (mem : generation ∈ s.accepted)
      (unlocked : s.writer = none) (h : acquireCommit s.entry generation = .ok ()) :
      Step s { s with effects := generation :: s.effects }
  | finish {s : Authority} (i : Nat) : Step s { s with effects := s.effects.eraseIdx i }
  | touch {s : Authority} {sql : Sqlite} {nowUnix : Int} {row : Option AuthorizationRow}
      (h : setLastSeen sql s.row nowUnix = .ok row) : Step s { s with row }
  | insert (s : Authority) : Step s { s with entry := some (entryOrInsert s.entry) }
  | lockRevoke {s : Authority} {entry : AuthEntry} (free : s.Free)
      (h : revokeGuard s.entry = .ok entry) : Step s { s with writer := some (.revoking none) }
  | lockAuthorize {s : Authority} {entry : AuthEntry} (free : s.Free) (h : s.entry = some entry) :
      Step s { s with writer := some (.authorizing entry.state none) }
  | askRevoke {s : Authority} (h : s.writer = some (.revoking none)) (nowUnix : Int) :
      Step s { s with
        writer := some (.revoking (some s.calls.length))
        calls := s.calls ++ [⟨.revoke nowUnix, .queued⟩] }
  | askAuthorize {s : Authority} {prior : AuthorizationSnapshot}
      (h : s.writer = some (.authorizing prior none)) (displayName : String) (nowUnix : Int) :
      Step s { s with
        writer := some (.authorizing prior (some s.calls.length))
        calls := s.calls ++ [⟨.authorize displayName nowUnix, .queued⟩] }
  /-- the pairing has no time to write down -/
  | giveUp {s : Authority} {prior : AuthorizationSnapshot}
      (h : s.writer = some (.authorizing prior none)) : Step s { s with writer := none }
  | move {s : Authority} {i : Nat} {p : Pending} {call : Call Nat} (get : s.calls[i]? = some p)
      (moves : p.call.Moves call) (idle : call = .running → ¬s.Busy) : Step s (s.setCall i p call)
  | decide {s : Authority} {i : Nat} {p : Pending} (get : s.calls[i]? = some p)
      (running : p.call = .running) (sql : Sqlite) : Step s (s.decide i p sql)
  | revokeOutcome {s : Authority} {i : Nat} {p : Pending} {result : Except DaemonError Nat}
      {call : Call Nat} (h : s.writer = some (.revoking (some i))) (get : s.calls[i]? = some p)
      (returns : p.call.Returns result call) :
      Step s { s.setCall i p call with writer := afterRevoke result }
  | authorizeOutcome {s : Authority} {prior : AuthorizationSnapshot} {i : Nat} {p : Pending}
      {result : Except DaemonError Nat} {call : Call Nat}
      (h : s.writer = some (.authorizing prior (some i))) (get : s.calls[i]? = some p)
      (returns : p.call.Returns result call) :
      Step s { s.setCall i p call with writer := afterAuthorize prior i result }
  | readMove {s : Authority} {prior : AuthorizationSnapshot} {i : Nat}
      {read read' : Call AuthorizationSnapshot} (h : s.writer = some (.rereading prior i read))
      (moves : read.Moves read') (idle : read' = .running → ¬s.Busy) :
      Step s { s with writer := some (.rereading prior i read') }
  | readDecide {s : Authority} {prior : AuthorizationSnapshot} {i : Nat}
      (h : s.writer = some (.rereading prior i .running)) (sql : Sqlite) :
      Step s { s with
        writer := some (.rereading prior i (.ran (authorizationSnapshot sql s.row) .pending)) }
  | readOutcome {s : Authority} {prior : AuthorizationSnapshot} {i : Nat}
      {read read' : Call AuthorizationSnapshot} {result : Except DaemonError AuthorizationSnapshot}
      (h : s.writer = some (.rereading prior i read)) (returns : read.Returns result read') :
      Step s { s with writer := afterReread prior result }
  | publish {s : Authority} {entry : AuthEntry} {snapshot : AuthorizationSnapshot}
      (h : s.writer = some (.publishing snapshot)) (get : s.entry = some entry)
      (valid : validateSnapshot snapshot = .ok ()) :
      Step s { s with
        entry := some { entry with state := snapshot }
        writer := some (.waking snapshot) }
  | refuse {s : Authority} {snapshot : AuthorizationSnapshot} {error : DaemonError}
      (h : s.writer = some (.publishing snapshot))
      (invalid : validateSnapshot snapshot = .error error) : Step s { s with writer := none }
  | wake {s : Authority} {entry : AuthEntry} {snapshot : AuthorizationSnapshot}
      (h : s.writer = some (.waking snapshot)) (get : s.entry = some entry) :
      Step s { s with
        entry := some { entry with watch := snapshot }
        writer := some .published }
  | unlock {s : Authority} (h : s.writer = some .published) : Step s { s with writer := none }
  /-- the caller's future is dropped while it waits for the store -/
  | cancel {s : Authority} {writer : Writer} {i : Nat} (h : s.writer = some writer)
      (waits : writer.owns = some i) : Step s { s with writer := none }

end Authority

end Voytty.Daemon
