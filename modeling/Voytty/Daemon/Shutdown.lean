import Voytty.Daemon.SessionRegistryRuns

/-!
# Shutting the sessions down

`shutdown_with_approval_until` of `daemon/src/session.rs`, on the registry and
among the creators and workers of `Sessions`. A call closes the registry or asks
for confirmation, cancels the creations that were under way, and then goes round a
loop: it asks every actor it sees to end, joins those whose worker is done, and
returns once the registry owns nothing, or with an error at its deadline. Each use
of a lock or of a flag is one step of the call, and several calls may be under way.

What the actors answer and whether the deadline has passed is the `ShutdownInput`
of a step. `begin_end` only asks a worker to end, which it may do at any time, and
a call that waits for a thread takes its next step when the wait is over.
-/

namespace Voytty.Daemon

open Voytty.Lib

/-! ## Summaries -/

/-- What an actor tells of itself. -/
structure RuntimeSummary where
  revision : Nat
  hasController : Bool
  viewport : TerminalSize
  deriving DecidableEq, Repr

structure SessionSummary where
  sessionId : SessionId
  name : SessionName
  revision : Nat
  hasController : Bool
  workingDirectory : String
  viewport : TerminalSize
  deriving DecidableEq, Repr

def SessionEntry.summary (entry : SessionEntry) (runtime : RuntimeSummary) : SessionSummary where
  sessionId := entry.actor.id
  name := entry.name
  revision := runtime.revision
  hasController := runtime.hasController
  workingDirectory := entry.workingDirectory
  viewport := runtime.viewport

/-! ## A call -/

inductive ShutdownOutcome where
  | stopped (sessions : List SessionSummary)
  | needsConfirmation (names : List String)
  deriving DecidableEq, Repr

inductive ShutdownStage where
  | cancelling (creations : List Nat)
  | observing
  | requesting (entries : List SessionEntry)
  | joining (entries : List SessionEntry)
  | checkingOwned
  | checkingReservations
  | checkingDeadline
  | failing (error : DaemonError)
  | expiring
  | reporting
  | returned (result : Except DaemonError ShutdownOutcome)

/-- Actors are named by their position, which stands for their address. -/
structure ShutdownCall where
  stage : ShutdownStage
  summaries : OrdMap SessionId SessionSummary := ∅
  summaryChecked : List Nat := []
  joined : List Nat := []
  observed : OrdMap Nat SessionEntry := ∅
  cleanupErrors : List DaemonError := []

structure ShutdownInput where
  summary : Except DaemonError RuntimeSummary := .ok ⟨0, false, ⟨24, 80⟩⟩
  finished : Except DaemonError Unit := .ok ()
  joined : Except DaemonError Unit := .ok ()
  expired : Bool := false

def Registry.ownedEntries (r : Registry) : List SessionEntry :=
  r.byId.values ++ r.provisional.values ++ r.cleanupOnly

namespace ShutdownCall

def begin : Except (List String) (List Nat) → ShutdownCall
  | .error names => { stage := .returned (.ok (.needsConfirmation names)) }
  | .ok creations => { stage := .cancelling creations }

def setStage (call : ShutdownCall) (stage : ShutdownStage) : ShutdownCall := { call with stage }

/-- An error that is worth reporting: a session that is gone already needs no cleanup. -/
def keepError (call : ShutdownCall) (result : Except DaemonError Unit) : ShutdownCall :=
  match result with
  | .error error =>
    if error.kind = .sessionNotFound then call
    else { call with cleanupErrors := call.cleanupErrors ++ [error] }
  | .ok () => call

/-- The first look at an actor asks it for its summary. -/
def request (call : ShutdownCall) (entry : SessionEntry)
    (summary : Except DaemonError RuntimeSummary) : ShutdownCall :=
  let seen := { call with observed := call.observed.insertIfNew entry.actor.ptr entry }
  if entry.actor.ptr ∈ call.summaryChecked then seen else
  let checked := { seen with summaryChecked := entry.actor.ptr :: call.summaryChecked }
  match summary with
  | .ok runtime =>
    { checked with summaries := call.summaries.insert entry.actor.id (entry.summary runtime) }
  | .error error => checked.keepError (.error error)

def join (call : ShutdownCall) (entry : SessionEntry) (workerDone : Bool) (input : ShutdownInput) :
    ShutdownCall :=
  if workerDone = true ∧ entry.actor.ptr ∉ call.joined then
    let finished := call.keepError input.finished
    { finished with
      cleanupErrors := finished.cleanupErrors ++
        match input.joined with
        | .error error => [error]
        | .ok () => []
      joined := entry.actor.ptr :: call.joined }
  else call

def allObservedJoined (call : ShutdownCall) : Bool := call.observed.keys.all (· ∈ call.joined)

/-- The sessions that were stopped, by name, unless a cleanup failed. -/
def conclude (call : ShutdownCall) : ShutdownStage :=
  match call.cleanupErrors with
  | error :: _ => .failing error
  | [] => .returned (.ok (.stopped (call.summaries.values.mergeSort (·.name ≤ ·.name))))

def deadlineElapsed (call : ShutdownCall) (owned : List SessionEntry) : DaemonError :=
  let unjoined := (call.observed.toList.filter (·.1 ∉ call.joined)).map (·.2)
  let remaining := ((owned ++ unjoined).map (·.name)).mergeSort.dedup
  ⟨.deadlineExceeded, "session shutdown deadline elapsed; remaining sessions: " ++
    String.intercalate ", " remaining⟩

/-- The next step of a call, with what it does to the registry or to a creation. -/
def advance (s : Sessions) (input : ShutdownInput) (call : ShutdownCall) :
    Option RegistryEvent × ShutdownCall :=
  match call.stage with
  | .cancelling (creation :: rest) => (some (.cancel creation), call.setStage (.cancelling rest))
  | .cancelling [] => (none, call.setStage .observing)
  | .observing => (none, call.setStage (.requesting s.registry.ownedEntries))
  | .requesting (entry :: rest) =>
    (none, (call.request entry input.summary).setStage (.requesting rest))
  | .requesting [] => (none, call.setStage (.joining call.observed.values))
  | .joining (entry :: rest) =>
    let workerDone := s.actors[entry.actor.ptr]?.any Actor.workerDone
    (none, (call.join entry workerDone input).setStage (.joining rest))
  | .joining [] => (none, call.setStage .checkingOwned)
  | .checkingOwned =>
    (none, call.setStage
      (if s.registry.ownedEntries.isEmpty then .checkingReservations else .checkingDeadline))
  | .checkingReservations =>
    (none, call.setStage (if s.registry.reservations.size = 0 ∧ call.allObservedJoined = true then
      call.conclude else .checkingDeadline))
  | .checkingDeadline => (none, call.setStage (if input.expired then .expiring else .observing))
  | .failing error => (some .resumeAfterFailedShutdown, call.setStage (.returned (.error error)))
  | .expiring => (some .resumeAfterFailedShutdown, call.setStage .reporting)
  | .reporting =>
    (none, call.setStage (.returned (.error (call.deadlineElapsed s.registry.ownedEntries))))
  | .returned _ => (none, call)

end ShutdownCall

/-! ## Several calls -/

inductive ShutdownEvent where
  | reserveName (name : SessionName) (waitForStarting : Bool)
  | creator (creation : Nat) (input : CreatorInput)
  | worker (ptr : Nat)
  | rename (sessionId : SessionId) (newName : SessionName)
  | shutdown (approved : Bool)
  | advance (call : Nat) (input : ShutdownInput)

structure Shutdowns where
  sessions : Sessions := {}
  calls : List ShutdownCall := []

namespace Shutdowns

def registryEvent (s : Shutdowns) : ShutdownEvent → Option RegistryEvent
  | .reserveName name waitForStarting => some (.reserveName name waitForStarting)
  | .creator creation input => some (.creator creation input)
  | .worker ptr => some (.worker ptr)
  | .rename sessionId newName => some (.rename sessionId newName)
  | .shutdown approved => some (.beginShutdown approved)
  | .advance call input => s.calls[call]?.bind fun c => (c.advance s.sessions input).1

def step (maxLiveSessions : Nat) (s : Shutdowns) (event : ShutdownEvent) : Shutdowns where
  sessions :=
    match s.registryEvent event with
    | some e => s.sessions.step maxLiveSessions e
    | none => s.sessions
  calls :=
    match event with
    | .shutdown approved =>
      s.calls ++ [.begin (s.sessions.registry.beginShutdown approved).1]
    | .advance call input => s.calls.modify call fun c => (c.advance s.sessions input).2
    | _ => s.calls

def run (maxLiveSessions : Nat) (s : Shutdowns) (events : List ShutdownEvent) : Shutdowns :=
  events.foldl (step maxLiveSessions) s

/-- A call that failed opens the registry again. -/
def resumes (s : Shutdowns) (event : ShutdownEvent) : Bool :=
  match s.registryEvent event with
  | some .resumeAfterFailedShutdown => true
  | _ => false

/-- No call fails during the run. -/
def staysShut (maxLiveSessions : Nat) : Shutdowns → List ShutdownEvent → Bool
  | _, [] => true
  | s, event :: events =>
    !s.resumes event && staysShut maxLiveSessions (s.step maxLiveSessions event) events

end Shutdowns

/-! ## What a step gives back -/

/-- Names, sessions and reservations are only given up. -/
structure Registry.Releases (r r' : Registry) : Prop where
  accepting : r'.accepting = r.accepting
  byName : ∀ (name : SessionName) slot, r'.byName[name]? = some slot → r.byName[name]? = some slot
  byId : ∀ (sessionId : SessionId) e, r'.byId[sessionId]? = some e → r.byId[sessionId]? = some e
  reservations : ∀ (sessionId : SessionId) k,
    r'.reservations[sessionId]? = some k → r.reservations[sessionId]? = some k

namespace Registry

variable {r r' : Registry}

theorem Releases.refl : r.Releases r := ⟨rfl, fun _ _ => id, fun _ _ => id, fun _ _ => id⟩

theorem get_of_erase {κ υ : Type} [LinearOrder κ] {m : OrdMap κ υ} {a b : κ} {v : υ}
    (h : (m.erase a)[b]? = some v) : m[b]? = some v := by
  rw [OrdMap.get_erase] at h
  split at h
  · cases h
  · exact h

variable (sessionId : SessionId) (name : SessionName) (entry : SessionEntry) (creation : Nat)

theorem registerProvisional_releases :
    r.Releases (r.registerProvisional sessionId entry).2 := by
  unfold registerProvisional
  split
  · exact .refl
  · split
    · exact .refl
    · exact ⟨rfl, fun _ _ => id, fun _ _ => id, fun _ _ => id⟩

theorem retain_releases :
    r.Releases (r.retainProvisionalForCleanup sessionId entry) := by
  unfold retainProvisionalForCleanup
  split
  · exact .refl
  · split <;> exact ⟨rfl, fun _ _ => id, fun _ _ => id, fun _ _ => id⟩

theorem releaseCreation_releases (sessionId : Option SessionId) :
    r.Releases (r.releaseCreation name creation sessionId) := by
  refine ⟨rfl, fun n slot hg => ?_, fun _ _ => id, fun i k hg => ?_⟩
  · simp only [releaseCreation] at hg
    split at hg
    · exact get_of_erase hg
    · exact hg
  · simp only [releaseCreation] at hg
    split at hg
    · split at hg
      · exact get_of_erase hg
      · exact hg
    · exact hg

theorem freeOwned_releases :
    r.Releases (r.freeOwned sessionId entry) := by
  refine ⟨rfl, fun n slot hg => ?_, fun _ _ => id, fun i k hg => ?_⟩
  · simp only [freeOwned] at hg
    split at hg
    · exact get_of_erase hg
    · exact hg
  · simp only [freeOwned] at hg
    split at hg
    · exact get_of_erase hg
    · exact hg

theorem complete_releases (actor : SessionActor) :
    r.Releases (r.complete sessionId actor) := by
  unfold complete
  split
  · rename_i entry _
    have h := r.freeOwned_releases sessionId entry
    exact ⟨h.accepting, h.byName, fun _ _ => get_of_erase, h.reservations⟩
  · split
    · rename_i entry _
      have h := r.freeOwned_releases sessionId entry
      exact ⟨h.accepting, h.byName, h.byId, h.reservations⟩
    · split
      · rename_i entry _
        have h := r.freeOwned_releases sessionId entry
        exact ⟨h.accepting, h.byName, h.byId, h.reservations⟩
      · exact .refl

/-! ## What a step takes -/

/-- A registry that is closed only gives things up, and an identity goes only to a creation that
`asks` for one. -/
structure Grants (asks : Nat → Prop) (r r' : Registry) : Prop where
  closed : r.accepting = false → r.Releases r'
  reservations : ∀ (sessionId : SessionId) k, r'.reservations[sessionId]? = some k →
    r.reservations[sessionId]? = some k ∨ asks k

section Grants

variable {asks : Nat → Prop}

theorem Releases.grants (h : r.Releases r') : r.Grants asks r' :=
  ⟨fun _ => h, fun i k hg => .inl (h.reservations i k hg)⟩

theorem Grants.refl : r.Grants asks r := Releases.refl.grants

theorem Grants.of_open (hopen : r.accepting = true) (h : r'.reservations = r.reservations) :
    r.Grants asks r' :=
  ⟨fun hclosed => absurd (hclosed.symm.trans hopen) nofun, fun _ _ hg => .inl (h ▸ hg)⟩

variable (asks)

theorem reserveName_closed (hclosed : r.accepting = false) (waitForStarting : Bool) :
    r.reserveName name waitForStarting creation = (.error shuttingDown, r) := by
  simp [reserveName, hclosed]

theorem reserveName_grants (waitForStarting : Bool) :
    r.Grants asks (r.reserveName name waitForStarting creation).2 := by
  cases hopen : r.accepting with
  | false => rw [reserveName_closed name creation hopen]; exact .refl
  | true =>
    refine .of_open hopen ?_
    unfold reserveName
    repeat' split
    all_goals rfl

theorem reserveCreationSession_grants (cancelled : Bool) (limit : Nat)
    (candidates : Nat → SessionId) (hasks : cancelled = false → asks creation) :
    r.Grants asks (r.reserveCreationSession name creation cancelled limit candidates).2 := by
  unfold reserveCreationSession
  split
  · exact .refl
  rename_i hguard
  obtain ⟨hopen, hcancelled, -⟩ := not_not.mp hguard
  split
  · exact .refl
  split
  · exact .refl
  refine ⟨fun hclosed => absurd (hclosed.symm.trans hopen) nofun, fun i k hg => ?_⟩
  rw [OrdMap.get_insert] at hg
  split at hg
  · cases hg
    exact .inr (hasks hcancelled)
  · exact .inl hg

theorem publishName_grants (cancelled : Bool) (actor : SessionActor) :
    r.Grants asks (r.publishName name creation cancelled sessionId actor).2 := by
  unfold publishName
  split
  · exact .refl
  rename_i hguard
  refine .of_open (not_not.mp hguard).1 ?_
  repeat' split
  all_goals rfl

theorem rename_grants (newName : SessionName) :
    r.Grants asks (r.rename sessionId newName).2 := by
  unfold rename
  split
  · exact .refl
  rename_i hopen
  refine .of_open (by simpa using hopen) ?_
  repeat' split
  all_goals rfl

theorem beginShutdown_grants (approved : Bool) : r.Grants asks (r.beginShutdown approved).2 := by
  unfold beginShutdown
  dsimp only
  split
  · exact .refl
  · exact ⟨fun h => ⟨h.symm, fun _ _ => id, fun _ _ => id, fun _ _ => id⟩, fun _ _ => .inl⟩

end Grants

end Registry

theorem Stage.Permits.unreserved {stage : Stage} {e : SessionEntry} {a : Actor} {h : Holding}
    {k : Nat} (hp : stage.Permits e a h) (hr : h.reservation k = none) : a.workerDone = true := by
  unfold Stage.Permits at hp
  split at hp <;> simp_all [Holding.reservation] <;> grind [Holding.reservation]

namespace Sessions

variable {limit k : Nat} {s : Sessions}

/-- The creation may be given an identity. -/
def Asks (s : Sessions) (k : Nat) : Prop :=
  ∃ c, s.creations[k]? = some c ∧ c.cancelled = false ∧ c.stage = .reserved

/-- What a step of the creation `k` does to the creations and to the registry. -/
structure Moved (k : Nat) (stage : Stage) (s s' : Sessions) : Prop where
  left : stage ≠ .reserved
  creations : s'.creations = (s.setStage k stage).creations
  registry : s.registry.Grants s.Asks s'.registry

theorem creator_cases (limit : Nat) (s : Sessions) (k : Nat) (input : CreatorInput) :
    ∃ stage, Moved k stage s (s.creator limit k input) := by
  cases hc : s.creations[k]? with
  | none =>
    simp only [creator, hc]
    exact ⟨.finished none, by simp, by simp [setStage, List.modify_eq_set_getElem?, hc], .refl⟩
  | some c =>
    simp only [creator, hc]
    cases hst : c.stage with
    | finished entry =>
      refine ⟨.finished entry, by simp, ?_, .refl⟩
      have hsame : s.setStage k c.stage = s := by rw [setStage_eq hc, set_same hc]
      rw [← hst, hsame, hst]
    | reserved =>
      have hgrants := s.registry.reserveCreationSession_grants c.name k s.Asks c.cancelled
        limit input.candidates fun hcancelled => ⟨c, hc, hcancelled, hst⟩
      dsimp only
      split
      · exact ⟨.releasing none, by simp, rfl, .refl⟩
      · split
        · rename_i sessionId r hop
          rw [hop] at hgrants
          exact ⟨.identified sessionId, by simp, rfl, hgrants⟩
        · rename_i r hop
          rw [hop] at hgrants
          exact ⟨.releasing none, by simp, rfl, hgrants⟩
    | identified sessionId =>
      dsimp only
      split
      · exact ⟨.releasing (some sessionId), by simp, rfl, .refl⟩
      · exact ⟨.started ⟨⟨s.actors.length, sessionId⟩, c.name, input.workingDirectory, k⟩, by simp,
          rfl, .refl⟩
    | started entry =>
      have hrel := s.registry.registerProvisional_releases entry.actor.id entry
      dsimp only
      split
      · exact ⟨.retaining .cleanup entry, by simp, rfl, .refl⟩
      · split
        · rename_i r hop
          rw [hop] at hrel
          exact ⟨.marking .publish entry, by simp, rfl, hrel.grants⟩
        · rename_i r hop
          rw [hop] at hrel
          exact ⟨.retaining .cleanup entry, by simp, rfl, hrel.grants⟩
    | retaining after entry =>
      exact ⟨.marking after entry, by simp, rfl,
        (s.registry.retain_releases entry.actor.id entry).grants⟩
    | marking after entry => exact ⟨.loading after entry, by simp, rfl, .refl⟩
    | loading after entry =>
      dsimp only
      split
      · exact ⟨.completing after entry, by simp, rfl, .refl⟩
      · exact ⟨after.stage entry, by cases after <;> simp [After.stage], rfl, .refl⟩
    | completing after entry =>
      exact ⟨after.stage entry, by cases after <;> simp [After.stage], rfl,
        (s.registry.complete_releases entry.actor.id entry.actor).grants⟩
    | publishing entry =>
      have hgrants := s.registry.publishName_grants entry.actor.id c.name k s.Asks c.cancelled
        entry.actor
      dsimp only
      split
      · exact ⟨.retaining .finish entry, by simp, rfl, .refl⟩
      · split
        · rename_i r hop
          rw [hop] at hgrants
          exact ⟨.finished (some entry), by simp, rfl, hgrants⟩
        · rename_i r hop
          rw [hop] at hgrants
          exact ⟨.retaining .finish entry, by simp, rfl, hgrants⟩
    | releasing sessionId =>
      exact ⟨.finished none, by simp, rfl,
        (s.registry.releaseCreation_releases c.name k sessionId).grants⟩

theorem worker_cases (s : Sessions) (ptr : Nat) :
    (s.worker ptr).creations = s.creations ∧ s.registry.Releases (s.worker ptr).registry := by
  unfold worker
  split
  · exact ⟨rfl, .refl⟩
  · rename_i actor _
    split
    · exact ⟨rfl, .refl⟩
    · exact ⟨rfl, .refl⟩
    · exact ⟨rfl, s.registry.complete_releases actor.id ⟨ptr, actor.id⟩⟩
    · exact ⟨rfl, .refl⟩

theorem step_grants (limit : Nat) (s : Sessions) (event : RegistryEvent) :
    event = .resumeAfterFailedShutdown ∨
      s.registry.Grants s.Asks (s.step limit event).registry := by
  cases event with
  | resumeAfterFailedShutdown => exact .inl rfl
  | reserveName name waitForStarting =>
    have hgrants := s.registry.reserveName_grants name s.creations.length s.Asks waitForStarting
    right
    simp only [Sessions.step]
    split
    · rename_i hop
      rwa [hop] at hgrants
    · rename_i hop
      rwa [hop] at hgrants
  | creator k input =>
    obtain ⟨stage, hm⟩ := creator_cases limit s k input
    exact .inr hm.registry
  | worker ptr => exact .inr (s.worker_cases ptr).2.grants
  | rename sessionId newName => exact .inr (s.registry.rename_grants sessionId s.Asks newName)
  | beginShutdown approved => exact .inr (s.registry.beginShutdown_grants s.Asks approved)
  | cancel k => exact .inr .refl

/-! ## Creations that get no identity any more -/

/-- The creation was cancelled, or it is past the point where it asks for an identity. -/
def Doomed (s : Sessions) (k : Nat) : Prop :=
  ∃ c, s.creations[k]? = some c ∧ (c.cancelled = true ∨ c.stage ≠ .reserved)

/-- It has no identity either. -/
structure Settled (s : Sessions) (k : Nat) : Prop where
  doomed : s.Doomed k
  unreserved : ∀ (sessionId : SessionId) l, s.registry.reservations[sessionId]? = some l → l ≠ k

theorem step_creation (limit : Nat) {c : Creation} (hc : s.creations[k]? = some c) (event : RegistryEvent) :
    ∃ c', (s.step limit event).creations[k]? = some c' ∧
      (c.cancelled = true ∨ c.stage ≠ .reserved → c'.cancelled = true ∨ c'.stage ≠ .reserved) := by
  cases event with
  | reserveName name waitForStarting =>
    have hlt := (List.getElem?_eq_some_iff.mp hc).1
    simp only [Sessions.step]
    split
    · exact ⟨c, (List.getElem?_append_left hlt).trans hc, id⟩
    · exact ⟨c, hc, id⟩
  | creator l input =>
    obtain ⟨stage, hm⟩ := creator_cases limit s l input
    simp only [Sessions.step, hm.creations, setStage, List.getElem?_modify, hc]
    by_cases hlk : l = k
    · exact ⟨{ c with stage }, by simp [hlk], fun _ => .inr hm.left⟩
    · exact ⟨c, by simp [hlk], id⟩
  | worker ptr => exact ⟨c, by rw [Sessions.step, (s.worker_cases ptr).1, hc], id⟩
  | rename | beginShutdown | resumeAfterFailedShutdown => exact ⟨c, hc, id⟩
  | cancel l =>
    simp only [Sessions.step, List.getElem?_modify, hc]
    by_cases hlk : l = k
    · exact ⟨{ c with cancelled := true }, by simp [hlk], fun _ => .inl rfl⟩
    · exact ⟨c, by simp [hlk], id⟩

theorem Doomed.step (h : s.Doomed k) (event : RegistryEvent) : (s.step limit event).Doomed k := by
  obtain ⟨c, hc, hd⟩ := h
  obtain ⟨c', hc', hkeep⟩ := step_creation limit hc event
  exact ⟨c', hc', hkeep hd⟩

theorem doomed_cancel {c : Creation} (hc : s.creations[k]? = some c) :
    (s.step limit (.cancel k)).Doomed k :=
  ⟨{ c with cancelled := true }, by simp [Sessions.step, hc], .inl rfl⟩

/-- Nothing but a creation that is not cancelled, asking for an identity, gets one. -/
theorem Settled.step (h : s.Settled k) (event : RegistryEvent) :
    (s.step limit event).Settled k := by
  refine ⟨h.doomed.step event, fun sessionId l hg => ?_⟩
  rcases step_grants limit s event with rfl | hgrants
  · exact h.unreserved sessionId l hg
  rcases hgrants.reservations sessionId l hg with hold | ⟨c, hc, hcancelled, hst⟩
  · exact h.unreserved sessionId l hold
  · rintro rfl
    obtain ⟨c', hc', hd⟩ := h.doomed
    rw [hc] at hc'
    cases hc'
    rcases hd with hd | hd
    · rw [hcancelled] at hd
      cases hd
    · exact hd hst

/-- The token has no session and no identity for one, and the session it had has ended. -/
structure Completed (s : Sessions) (k : Nat) : Prop where
  reservations : ∀ (sessionId : SessionId) l,
    s.registry.reservations[sessionId]? = some l → l ≠ k
  byId : ∀ (sessionId : SessionId) e, s.registry.byId[sessionId]? = some e → e.ownership ≠ k
  provisional : ∀ (sessionId : SessionId) e,
    s.registry.provisional[sessionId]? = some e → e.ownership ≠ k
  ended : ∀ e, s.entryOf k = some e → s.actors[e.actor.ptr]?.any Actor.workerDone = true

theorem Settled.completed (h : s.Settled k) (hi : Inv limit s) : s.Completed k := by
  obtain ⟨c, hc, -⟩ := h.doomed
  obtain ⟨held, hh, hf⟩ := hi.holds k c hc
  have hnone : held.reservation k = none := by
    cases hr : held.reservation k with
    | none => rfl
    | some r =>
      obtain ⟨sessionId, l⟩ := r
      have hs := hh.reservations
      rw [hr] at hs
      exact absurd hs.owner (h.unreserved sessionId l hs.get)
  refine ⟨h.unreserved, ?_, ?_, fun e he => ?_⟩
  · refine Share.none_iff.mp ?_
    cases held <;> first | exact hh.byId | cases hnone
  · refine Share.none_iff.mp ?_
    cases held <;> first | exact hh.provisional | cases hnone
  · rw [entryOf_some hc] at he
    obtain ⟨a, -, -, ha, -, -, hp⟩ := hf.acts he
    rw [ha]
    exact hp.unreserved hnone

/-! ## The closed registry -/

/-- Since `s` no name was reserved or taken and no session was published. -/
structure Closed (s s' : Sessions) : Prop where
  accepting : s'.registry.accepting = false
  creations : s'.creations.length = s.creations.length
  byName : ∀ (name : SessionName) slot, s'.registry.byName[name]? = some slot →
    s.registry.byName[name]? = some slot
  byId : ∀ (sessionId : SessionId) e, s'.registry.byId[sessionId]? = some e →
    s.registry.byId[sessionId]? = some e

theorem Closed.refl (h : s.registry.accepting = false) : s.Closed s :=
  ⟨h, rfl, fun _ _ => id, fun _ _ => id⟩

theorem Closed.trans {s' s'' : Sessions} (h : s.Closed s') (h' : s'.Closed s'') : s.Closed s'' :=
  ⟨h'.accepting, h'.creations.trans h.creations,
    fun n slot hg => h.byName n slot (h'.byName n slot hg), fun i e hg => h.byId i e (h'.byId i e hg)⟩

theorem step_length (h : s.registry.accepting = false) (event : RegistryEvent) :
    (s.step limit event).creations.length = s.creations.length := by
  cases event with
  | reserveName name waitForStarting =>
    simp only [Sessions.step, Registry.reserveName_closed _ _ h, setRegistry]
  | creator k input =>
    obtain ⟨stage, hm⟩ := creator_cases limit s k input
    rw [Sessions.step, hm.creations, setStage, List.length_modify]
  | worker ptr => exact congrArg List.length (s.worker_cases ptr).1
  | cancel k => exact List.length_modify ..
  | rename | beginShutdown | resumeAfterFailedShutdown => rfl

theorem closed_step {event : RegistryEvent} (h : s.registry.accepting = false)
    (hresume : event ≠ .resumeAfterFailedShutdown) : s.Closed (s.step limit event) := by
  have hrel := ((step_grants limit s event).resolve_left hresume).closed h
  exact ⟨hrel.accepting.trans h, step_length h event, hrel.byName, hrel.byId⟩

end Sessions

/-! ## Approval -/

namespace Registry

variable {r : Registry}

def Idle (r : Registry) : Prop := ∀ k, Sessions.Absent r k

def namesInUse (r : Registry) : List SessionName :=
  (r.byName.keys ++ (r.byId.values ++ r.provisional.values ++ r.cleanupOnly).map
    (·.name)).mergeSort.dedup

theorem mem_namesInUse {name : SessionName} : name ∈ r.namesInUse ↔
    name ∈ r.byName ∨ ∃ e ∈ r.ownedEntries, e.name = name := by
  simp only [namesInUse, ownedEntries, List.mem_dedup, List.mem_mergeSort, List.mem_append,
    OrdMap.mem_keys, List.mem_map]

theorem idle_iff : r.Idle ↔ r.namesInUse = [] ∧ r.reservations.isEmpty = true := by
  rw [List.eq_nil_iff_forall_not_mem]
  simp only [mem_namesInUse, ownedEntries, List.mem_append, OrdMap.mem_values]
  constructor
  · intro h
    refine ⟨?_, ?_⟩
    · rintro name (hmem | ⟨e, hmem, -⟩)
      · obtain ⟨slot, hg⟩ := OrdMap.mem_iff_get.mp hmem
        exact (h slot.ownership).byName name slot hg rfl
      · rcases hmem with (⟨i, hg⟩ | ⟨i, hg⟩) | hmem
        · exact (h e.ownership).byId i e hg rfl
        · exact (h e.ownership).provisional i e hg rfl
        · exact (h e.ownership).cleanupOnly e hmem rfl
    · rw [Std.TreeMap.isEmpty_iff_forall_not_mem]
      intro i hmem
      obtain ⟨k, hg⟩ := OrdMap.mem_iff_get.mp hmem
      exact (h k).reservations i k hg rfl
  · rintro ⟨hnames, hempty⟩ k
    rw [Std.TreeMap.isEmpty_iff_forall_not_mem] at hempty
    refine ⟨fun name slot hg => ?_, fun i l hg => ?_, fun i e hg => ?_, fun i e hg => ?_,
      fun e he => ?_⟩
    · exact absurd (.inl (OrdMap.mem_iff_get.mpr ⟨slot, hg⟩)) (hnames name)
    · exact absurd (OrdMap.mem_iff_get.mpr ⟨l, hg⟩) (hempty i)
    · exact absurd (.inr ⟨e, .inl (.inl ⟨i, hg⟩), rfl⟩) (hnames e.name)
    · exact absurd (.inr ⟨e, .inl (.inr ⟨i, hg⟩), rfl⟩) (hnames e.name)
    · exact absurd (.inr ⟨e, .inr he, rfl⟩) (hnames e.name)

def startingCreations (r : Registry) : List Nat :=
  r.byName.values.filterMap fun
    | .starting creation _ => some creation
    | .live .. => none

theorem mem_startingCreations {name : SessionName} {creation : Nat} {sessionId : Option SessionId}
    (h : r.byName[name]? = some (.starting creation sessionId)) :
    creation ∈ r.startingCreations :=
  List.mem_filterMap.mpr ⟨_, OrdMap.mem_values.mpr ⟨name, h⟩, rfl⟩

/-- A shutdown is refused exactly if it is not approved and something is owned. -/
theorem beginShutdown_cases (approved : Bool) :
    (approved = true ∨ r.Idle) ∧
      r.beginShutdown approved = (.ok r.startingCreations, { r with accepting := false }) ∨
    approved = false ∧ ¬ r.Idle ∧ r.beginShutdown approved = (.error r.namesInUse, r) := by
  by_cases h : approved = false ∧ ¬ r.Idle
  · refine .inr ⟨h.1, h.2, ?_⟩
    have hnot := h.2
    rw [idle_iff] at hnot
    exact if_pos ⟨h.1, hnot⟩
  · refine .inl ⟨by grind, ?_⟩
    rw [idle_iff] at h
    exact if_neg h

end Registry

namespace Shutdowns

variable {limit : Nat} {s : Shutdowns}

theorem step_sessions (limit : Nat) (s : Shutdowns) (event : ShutdownEvent) :
    s.registryEvent event = none ∧ (s.step limit event).sessions = s.sessions ∨
    ∃ e, s.registryEvent event = some e ∧
      (s.step limit event).sessions = s.sessions.step limit e := by
  unfold step
  cases h : s.registryEvent event with
  | none => exact .inl ⟨rfl, rfl⟩
  | some e => exact .inr ⟨e, rfl, rfl⟩

theorem run_inv (hi : Sessions.Inv limit s.sessions) (events : List ShutdownEvent) :
    Sessions.Inv limit (s.run limit events).sessions := by
  induction events generalizing s with
  | nil => exact hi
  | cons event events ih =>
    refine ih ?_
    rcases s.step_sessions limit event with ⟨-, hs⟩ | ⟨e, -, hs⟩
    · rw [hs]
      exact hi
    · rw [hs]
      exact (hi.step e).1

theorem run_closed (hclosed : s.sessions.registry.accepting = false)
    (events : List ShutdownEvent) (hshut : s.staysShut limit events = true) :
    s.sessions.Closed (s.run limit events).sessions := by
  induction events generalizing s with
  | nil => exact .refl hclosed
  | cons event events ih =>
    obtain ⟨hresume, hrest⟩ := Bool.and_eq_true_iff.mp hshut
    have hstep : s.sessions.Closed (s.step limit event).sessions := by
      rcases s.step_sessions limit event with ⟨-, hs⟩ | ⟨e, he, hs⟩
      · rw [hs]
        exact .refl hclosed
      · rw [hs]
        refine Sessions.closed_step hclosed fun heq => ?_
        rw [heq] at he
        simp [resumes, he] at hresume
    exact hstep.trans (ih hstep.accepting hrest)

/-! ## A call and what was owned when it began -/

/-- What a call that began when the tokens of `owned` had something knows at each of its stages. -/
def Tracks (owned : Nat → Prop) (s : Sessions) : ShutdownStage → Prop
  | .cancelling creations =>
    ∀ k, owned k → s.Doomed k ∨ k ∈ creations ∧ ∃ c, s.creations[k]? = some c
  | .returned (.ok (.stopped _)) => ∀ k, owned k → s.Settled k
  | .returned _ => True
  | _ => ∀ k, owned k → s.Doomed k

section Tracks

variable {owned : Nat → Prop} {σ : Sessions} {call : ShutdownCall}

theorem Tracks.step {stage : ShutdownStage} (h : Tracks owned σ stage) (event : RegistryEvent) :
    Tracks owned (σ.step limit event) stage := by
  unfold Tracks at h ⊢
  split
  · intro k hk
    rcases h k hk with hd | ⟨hmem, c, hc⟩
    · exact .inl (hd.step event)
    · obtain ⟨c', hc', -⟩ := Sessions.step_creation limit hc event
      exact .inr ⟨hmem, c', hc'⟩
  · exact fun k hk => (h k hk).step event
  · trivial
  · simp only at h
    exact fun k hk => (h k hk).step event

theorem Tracks.conclude (h : ∀ k, owned k → σ.Doomed k)
    (hempty : σ.registry.reservations.size = 0) : Tracks owned σ call.conclude := by
  unfold ShutdownCall.conclude
  split
  · exact h
  · refine fun k hk => ⟨h k hk, fun sessionId l hg => ?_⟩
    have hmem := OrdMap.mem_iff_get.mpr ⟨l, hg⟩
    have hnone := Std.TreeMap.isEmpty_iff_forall_not_mem.mp
      (Std.TreeMap.isEmpty_eq_size_eq_zero.trans (by simpa using hempty))
    exact absurd hmem (hnone sessionId)

theorem Tracks.advance (limit : Nat) (h : Tracks owned σ call.stage) (input : ShutdownInput) :
    Tracks owned
      (match (call.advance σ input).1 with
        | some e => σ.step limit e
        | none => σ)
      (call.advance σ input).2.stage := by
  unfold ShutdownCall.advance
  cases hst : call.stage with
  | cancelling creations =>
    rw [hst] at h
    cases creations with
    | nil => exact fun k hk => (h k hk).resolve_right (by simp)
    | cons creation rest =>
      intro k hk
      rcases h k hk with hd | ⟨hmem, c, hc⟩
      · exact .inl (hd.step _)
      · rcases List.mem_cons.mp hmem with rfl | hrest
        · exact .inl (Sessions.doomed_cancel hc)
        · obtain ⟨c', hc', -⟩ := Sessions.step_creation limit hc (.cancel creation)
          exact .inr ⟨hrest, c', hc'⟩
  | observing => rw [hst] at h; exact h
  | requesting entries | joining entries => rw [hst] at h; cases entries <;> exact h
  | checkingOwned | checkingDeadline =>
    rw [hst] at h
    simp only [ShutdownCall.setStage]
    split <;> exact h
  | checkingReservations =>
    rw [hst] at h
    simp only [ShutdownCall.setStage]
    split
    · rename_i hdone
      exact Tracks.conclude h hdone.1
    · exact h
  | failing error => trivial
  | expiring => rw [hst] at h; exact fun k hk => (h k hk).step _
  | reporting => trivial
  | returned result => simp only [hst]; rw [hst] at h; exact h

end Tracks

theorem tracks_step {owned : Nat → Prop} {i : Nat}
    (h : ∃ call, s.calls[i]? = some call ∧ Tracks owned s.sessions call.stage)
    (event : ShutdownEvent) :
    ∃ call, (s.step limit event).calls[i]? = some call ∧
      Tracks owned (s.step limit event).sessions call.stage := by
  obtain ⟨call, hc, ht⟩ := h
  have hother : Tracks owned (s.step limit event).sessions call.stage := by
    rcases s.step_sessions limit event with ⟨-, hs⟩ | ⟨e, -, hs⟩
    · rw [hs]
      exact ht
    · rw [hs]
      exact ht.step e
  cases event with
  | reserveName | creator | worker | rename => exact ⟨call, hc, hother⟩
  | shutdown approved =>
    have hlt := (List.getElem?_eq_some_iff.mp hc).1
    exact ⟨call, (List.getElem?_append_left hlt).trans hc, hother⟩
  | advance j input =>
    by_cases hij : j = i
    · subst hij
      refine ⟨(call.advance s.sessions input).2, by simp [step, hc], ?_⟩
      have hadv := ht.advance limit input
      simpa only [step, registryEvent, hc, Option.bind_some] using hadv
    · exact ⟨call, by simp [step, hij, hc], hother⟩

theorem tracks_run {owned : Nat → Prop} {i : Nat}
    (h : ∃ call, s.calls[i]? = some call ∧ Tracks owned s.sessions call.stage)
    (events : List ShutdownEvent) :
    ∃ call, (s.run limit events).calls[i]? = some call ∧
      Tracks owned (s.run limit events).sessions call.stage := by
  induction events generalizing s with
  | nil => exact h
  | cons event events ih => exact ih (tracks_step h event)

/-- A call that begins cancels every creation that may still ask for an identity. -/
theorem tracks_begin (hi : Sessions.Inv limit s.sessions) (approved : Bool) :
    ∃ call, (s.step limit (.shutdown approved)).calls[s.calls.length]? = some call ∧
      Tracks (fun k => ¬ Sessions.Absent s.sessions.registry k)
        (s.step limit (.shutdown approved)).sessions call.stage := by
  refine ⟨.begin (s.sessions.registry.beginShutdown approved).1, by simp [step], ?_⟩
  rcases s.sessions.registry.beginShutdown_cases approved with ⟨-, hop⟩ | ⟨-, -, hop⟩
  · rw [hop]
    intro k hk
    cases hc : s.sessions.creations[k]? with
    | none =>
      have hh := hi.fresh k (List.getElem?_eq_none_iff.mp hc)
      exact absurd (Sessions.absent_of_holds hh) hk
    | some c =>
      by_cases hst : c.stage = .reserved
      · obtain ⟨held, hh, hf⟩ := hi.holds k c hc
        rw [hst] at hf
        cases hf with
        | acting he => cases he
        | reserved => exact .inr ⟨Registry.mem_startingCreations hh.byName.get, c, hc⟩
      · exact .inl ⟨c, hc, .inr hst⟩
  · rw [hop]
    trivial

/-- Whether a shutdown takes effect, and what it does to the registry: it closes it, or leaves
everything as it was and names what is in use. -/
inductive Begun (limit : Nat) (s : Shutdowns) (approved : Bool) : Prop
  | closes (call : (s.step limit (.shutdown approved)).calls[s.calls.length]? =
      some { stage := .cancelling s.sessions.registry.startingCreations })
    (closed : (s.step limit (.shutdown approved)).sessions.registry.accepting = false)
    (allowed : approved = true ∨ s.sessions.registry.Idle)
  | refused (call : (s.step limit (.shutdown approved)).calls[s.calls.length]? =
      some { stage := .returned (.ok (.needsConfirmation s.sessions.registry.namesInUse)) })
    (unchanged : (s.step limit (.shutdown approved)).sessions = s.sessions)
    (asked : approved = false) (owned : ¬ s.sessions.registry.Idle)

theorem begun (s : Shutdowns) (approved : Bool) : Begun limit s approved := by
  rcases s.sessions.registry.beginShutdown_cases approved with
    ⟨hallowed, hop⟩ | ⟨hasked, howned, hop⟩
  · refine .closes ?_ ?_ hallowed
    · simp [step, hop, ShutdownCall.begin]
    · simp [step, registryEvent, Sessions.step, hop, Sessions.setRegistry]
  · refine .refused ?_ ?_ hasked howned
    · simp [step, hop, ShutdownCall.begin]
    · simp [step, registryEvent, Sessions.step, hop, Sessions.setRegistry]

/-- A creator's six steps from a reserved name to a published session. -/
def creates (k : Nat) : List ShutdownEvent := List.replicate 6 (.creator k {})

/-- Rounds of a call, the last of them at its deadline. -/
def advances (call n : Nat) (expired : Bool) : List ShutdownEvent :=
  List.replicate n (.advance call { expired })

-- an approved shutdown of one live session asks it to end, and stops once its worker has
example : ((run 4 {} (.reserveName "work" false :: creates 0 ++ [.shutdown true] ++
    advances 0 3 false ++ [.worker 0, .worker 0, .worker 0] ++ advances 0 6 false)).calls.map
      fun call => match call.stage with
        | .returned (.ok (.stopped summaries)) => summaries.map (·.name)
        | _ => []) = [["work"]] := by decide +kernel

end Shutdowns

end Voytty.Daemon
