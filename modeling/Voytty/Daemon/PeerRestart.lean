import Voytty.Daemon.CandidateRegistry

/-!
# Restarts of a peer

`daemon/src/connection_broker.rs`: a handshake names the connection owner of the
peer, its incarnation. A new owner retires the current one and the candidates
that were made with it, and a retired owner is fenced for as long as one of its
handshakes may still be under way. A handshake registers its candidate, writes
the owner into the candidate when the peer's message is in, and only then takes
the slot's lock to have the owner observed.
-/

namespace Voytty.Daemon

open Voytty.Lib Relation

abbrev ConnectionIncarnation := Nat

structure PeerIncarnation where
  current : Option ConnectionIncarnation := none
  /-- The owners retired and until when each is fenced. -/
  retired : List (ConnectionIncarnation × Nat) := []
  deriving DecidableEq, Repr

def retiredOwner : DaemonError :=
  ⟨.transportUnavailable, "handshake belongs to a retired connection owner"⟩

def tooManyRestarts : DaemonError := ⟨.resourceExhausted, "too many connection owner restarts"⟩

namespace PeerIncarnation

def live (o : PeerIncarnation) (now : Nat) : List (ConnectionIncarnation × Nat) :=
  o.retired.filter (now < ·.2)

def observe (o : PeerIncarnation) (incarnation : ConnectionIncarnation)
    (now handshakeWindow maximum : Nat) : Except DaemonError Bool × PeerIncarnation :=
  let o := { o with retired := o.live now }
  if o.current = some incarnation then (.ok false, o)
  else if o.retired.any (·.1 = incarnation) then (.error retiredOwner, o)
  else
    match o.current with
    | some previous =>
      if o.retired.length ≥ maximum then (.error tooManyRestarts, o)
      else
        (.ok true,
          { current := some incarnation
            retired := o.retired ++ [(previous, now + handshakeWindow)] })
    | none => (.ok true, { o with current := some incarnation })

section Observe

variable {o : PeerIncarnation} {incarnation : ConnectionIncarnation} {now window maximum : Nat}

theorem mem_live {owner : ConnectionIncarnation × Nat} :
    owner ∈ o.live now ↔ owner ∈ o.retired ∧ now < owner.2 := by
  simp [live]

inductive Observed (o : PeerIncarnation) (incarnation : ConnectionIncarnation)
    (now window maximum : Nat) : Except DaemonError Bool × PeerIncarnation → Prop where
  | same (current : o.current = some incarnation) :
      Observed o incarnation now window maximum (.ok false, { o with retired := o.live now })
  | fenced (other : o.current ≠ some incarnation) (deadline : Nat)
      (live : (incarnation, deadline) ∈ o.live now) :
      Observed o incarnation now window maximum
        (.error retiredOwner, { o with retired := o.live now })
  | crowded (other : o.current ≠ some incarnation) (full : maximum ≤ (o.live now).length) :
      Observed o incarnation now window maximum
        (.error tooManyRestarts, { o with retired := o.live now })
  | first (none : o.current = none) (free : ∀ deadline, (incarnation, deadline) ∉ o.live now) :
      Observed o incarnation now window maximum
        (.ok true, { current := some incarnation, retired := o.live now })
  | restarted (previous : ConnectionIncarnation) (current : o.current = some previous)
      (other : previous ≠ incarnation) (free : ∀ deadline, (incarnation, deadline) ∉ o.live now)
      (room : (o.live now).length < maximum) :
      Observed o incarnation now window maximum
        (.ok true,
          { current := some incarnation, retired := o.live now ++ [(previous, now + window)] })

theorem observe_observed :
    Observed o incarnation now window maximum (o.observe incarnation now window maximum) := by
  unfold observe
  dsimp only
  split
  · exact .same ‹_›
  rename_i hother
  split
  · rename_i hany
    obtain ⟨deadline, hlive⟩ : ∃ deadline, (incarnation, deadline) ∈ o.live now := by
      simpa using hany
    exact .fenced hother deadline hlive
  rename_i hfree
  have hfree : ∀ deadline, (incarnation, deadline) ∉ o.live now := by simpa using hfree
  split
  · rename_i previous hcurrent
    split
    · exact .crowded hother ‹_›
    · refine .restarted previous hcurrent ?_ hfree (by omega)
      rintro rfl
      exact hother hcurrent
  · exact .first ‹_› hfree

/-- The current owner is not fenced, and no more owners are than the maximum. -/
structure Fences (maximum : Nat) (o : PeerIncarnation) : Prop where
  apart : ∀ owner ∈ o.retired, o.current ≠ some owner.1
  bounded : o.retired.length ≤ maximum

variable {r : Except DaemonError Bool × PeerIncarnation}

theorem Fences.observed (h : o.Fences maximum) (hr : Observed o incarnation now window maximum r) :
    r.2.Fences maximum := by
  have hlive : ∀ owner ∈ o.live now, o.current ≠ some owner.1 := fun owner ho =>
    h.apart owner (mem_live.mp ho).1
  have hlength : (o.live now).length ≤ maximum := (List.length_filter_le ..).trans h.bounded
  have hadopted : (∀ deadline, (incarnation, deadline) ∉ o.live now) →
      ∀ owner ∈ o.live now, some incarnation ≠ some owner.1 := by
    rintro hfree ⟨owner, deadline⟩ ho heq
    exact hfree deadline (Option.some.inj heq ▸ ho)
  cases hr with
  | same | fenced | crowded => exact ⟨hlive, hlength⟩
  | first _ free => exact ⟨hadopted free, hlength⟩
  | restarted previous _ other free room =>
    refine ⟨fun owner ho => ?_, ?_⟩
    · rcases List.mem_append.mp ho with ho | ho
      · exact hadopted free owner ho
      · obtain rfl := List.mem_singleton.mp ho
        exact fun heq => other (Option.some.inj heq).symm
    · rw [List.length_append]
      exact room

theorem Observed.keeps (hr : Observed o incarnation now window maximum r)
    {owner : ConnectionIncarnation × Nat} (h : owner ∈ o.live now) : owner ∈ r.2.retired := by
  cases hr with
  | restarted => exact List.mem_append_left _ h
  | _ => exact h

theorem Observed.replaced (hr : Observed o incarnation now window maximum r)
    {previous : ConnectionIncarnation} (hcurrent : o.current = some previous)
    (h : r.2.current ≠ some previous) :
    (previous, now + window) ∈ r.2.retired := by
  cases hr with
  | same | fenced | crowded => exact absurd hcurrent h
  | first none => rw [none] at hcurrent; cases hcurrent
  | restarted _ current =>
    obtain rfl := Option.some.inj (current.symm.trans hcurrent)
    exact List.mem_append_right _ (List.mem_singleton_self _)

theorem Observed.refused {e : DaemonError} {o' : PeerIncarnation}
    (hr : Observed o incarnation now window maximum (.error e, o')) : o'.current = o.current := by
  cases hr <;> rfl

theorem Observed.known (hr : Observed o incarnation now window maximum r)
    (h : o.current = some incarnation ∨ ∃ deadline, (incarnation, deadline) ∈ o.live now) :
    r.1 ≠ .ok true ∧ r.2.current = o.current := by
  cases hr with
  | same | fenced | crowded => exact ⟨nofun, rfl⟩
  | first none free =>
    rcases h with h | ⟨deadline, h⟩
    · rw [none] at h; cases h
    · exact absurd h (free deadline)
  | restarted previous current other free =>
    rcases h with h | ⟨deadline, h⟩
    · exact absurd (Option.some.inj (current.symm.trans h)) other
    · exact absurd h (free deadline)

end Observe

end PeerIncarnation

/-! ## Handshakes -/

inductive HandshakePhase where
  /-- its candidate registered, the peer's message not read yet -/
  | exchanging
  /-- the owner written into the candidate, about to take the lock -/
  | observing (incarnation : ConnectionIncarnation)
  | observed
  | failed
  | done
  deriving DecidableEq, Repr

structure Handshake where
  key : ConnectionCandidateKey
  phase : HandshakePhase := .exchanging
  remoteIncarnation : Option (Option ConnectionIncarnation) := none
  deriving DecidableEq

/-- The slot of one peer with its handshakes; candidates are known by the number of their
handshake. `now` is when an owner was last observed. -/
structure PeerOwners where
  candidates : CandidateRegistry Nat := {}
  remoteAcceptance : Option Nat := none
  incarnation : PeerIncarnation := {}
  localIncarnation : Option ConnectionIncarnation := none
  handshakes : List Handshake := []
  now : Nat := 0

inductive HandshakeStep where
  /-- the `Hello` or `Welcome` of the peer is in -/
  | receive (incarnation : Option ConnectionIncarnation)
  /-- the part of `observe_incarnation` under the lock -/
  | observe (now : Nat)
  /-- the acceptance of a `Welcome` -/
  | accept (generation : Nat)
  | fail
  | removeCandidate
  | promote
  deriving DecidableEq, Repr

inductive OwnerEvent where
  /-- `register_candidate`, with the owner drawn for a slot that was empty -/
  | register (key : ConnectionCandidateKey) (drawn : ConnectionIncarnation)
  | handshake (i : Nat) (step : HandshakeStep)
  /-- `candidate_closed`, `retire_failed_candidate` -/
  | close (key : ConnectionCandidateKey)
  | closeCandidates
  deriving DecidableEq

namespace PeerOwners

variable (s : PeerOwners)

def recorded (candidate : Nat) : Option (Option ConnectionIncarnation) :=
  s.handshakes[candidate]?.bind (·.remoteIncarnation)

def Registered (candidate : Nat) : Prop := candidate ∈ s.candidates.values

instance (candidate : Nat) : Decidable (s.Registered candidate) :=
  inferInstanceAs (Decidable (_ ∈ _))

def setHandshake (i : Nat) (handshake : Handshake) : PeerOwners :=
  { s with handshakes := s.handshakes.set i handshake }

def registerCandidate (key : ConnectionCandidateKey) (drawn : ConnectionIncarnation) :
    PeerOwners :=
  let s := if s.candidates.entries.isEmpty then { s with localIncarnation := some drawn } else s
  match s.candidates.register key s.handshakes.length with
  | (.error _, _) => s
  | (.ok (), candidates) => { s with candidates, handshakes := s.handshakes ++ [{ key }] }

/-- A removal by key; with the last candidate goes the acceptance. -/
def removeKey (key : ConnectionCandidateKey) : PeerOwners :=
  let candidates := (s.candidates.remove key).2
  { s with
    candidates
    remoteAcceptance := if candidates.entries.isEmpty then none else s.remoteAcceptance }

/-- `observe_incarnation` under the lock: a new owner retires the candidates written for another. -/
def observeIncarnation (window maximum : Nat) (incarnation : ConnectionIncarnation) (now : Nat) :
    Except DaemonError Unit × PeerOwners :=
  match s.incarnation.observe incarnation now window maximum with
  | (.error e, owners) => (.error e, { s with incarnation := owners })
  | (.ok false, owners) => (.ok (), { s with incarnation := owners })
  | (.ok true, owners) =>
    let keys := s.candidates.entries.toList.filterMap fun (key, candidate) =>
      if (s.recorded candidate).any (· ≠ some incarnation) then some key else none
    (.ok (), { s with
      incarnation := owners
      remoteAcceptance := none
      candidates := keys.foldl (fun r key => (r.remove key).2) s.candidates })

/-- A step of a handshake, `none` when it is not its turn. -/
def advance (window maximum : Nat) (i : Nat) (h : Handshake) : HandshakeStep → Option PeerOwners
  | .receive incarnation =>
    if h.phase = .exchanging then
      some (s.setHandshake i { h with
        remoteIncarnation := some (h.remoteIncarnation.getD incarnation)
        phase := incarnation.elim .observed .observing })
    else none
  | .observe now =>
    match h.phase with
    | .observing incarnation =>
      if now < s.now then none
      else
        let (result, s) := { s with now }.observeIncarnation window maximum incarnation now
        some (s.setHandshake i { h with
          phase := match result with
            | .ok () => .observed
            | .error _ => .failed })
    | _ => none
  | .accept generation =>
    if h.phase = .observed then some { s with remoteAcceptance := some generation } else none
  | .fail =>
    if h.phase = .exchanging ∨ h.phase = .observed then
      some (s.setHandshake i { h with phase := .failed })
    else none
  | .removeCandidate =>
    if h.phase = .failed then some ((s.removeKey h.key).setHandshake i { h with phase := .done })
    else none
  | .promote =>
    if h.phase = .observed then
      let (decision, candidates) := s.candidates.markReadyAndDecide h.key
      let s := { s with candidates }
      match decision with
      | .wait => some s
      | _ => some (s.setHandshake i { h with phase := .done })
    else none

def step (window maximum : Nat) : OwnerEvent → Option PeerOwners
  | .register key drawn => some (s.registerCandidate key drawn)
  | .handshake i next => s.handshakes[i]?.bind (s.advance window maximum i · next)
  | .close key => some (s.removeKey key)
  | .closeCandidates =>
    some { s with candidates := s.candidates.takeAll.2, remoteAcceptance := none }

/-! ## What a step does to the owners -/

section Steps

variable {s s' : PeerOwners} {window maximum : Nat}

/-- An observation: whose turn it was, and what is left under the lock. -/
structure Observing (window maximum : Nat) (s s' : PeerOwners) (i now : Nat)
    (incarnation : ConnectionIncarnation) : Prop where
  turn : ∃ h, s.handshakes[i]? = some h ∧ h.phase = .observing incarnation
  later : s.now ≤ now
  clock : s'.now = now
  owners : s'.incarnation = (s.incarnation.observe incarnation now window maximum).2
  candidates : s'.candidates =
    ({ s with now }.observeIncarnation window maximum incarnation now).2.candidates

theorem observeIncarnation_incarnation (incarnation : ConnectionIncarnation) (now : Nat) :
    (s.observeIncarnation window maximum incarnation now).2.incarnation =
      (s.incarnation.observe incarnation now window maximum).2 := by
  unfold observeIncarnation
  split <;> simp only [*]

theorem observeIncarnation_now (incarnation : ConnectionIncarnation) (now : Nat) :
    (s.observeIncarnation window maximum incarnation now).2.now = s.now := by
  unfold observeIncarnation
  split <;> rfl

theorem observeIncarnation_candidates {incarnation : ConnectionIncarnation} {now : Nat}
    (h : (s.incarnation.observe incarnation now window maximum).1 ≠ .ok true) :
    (s.observeIncarnation window maximum incarnation now).2.candidates = s.candidates := by
  unfold observeIncarnation
  split
  · rfl
  · rfl
  · rename_i hadopted
    rw [hadopted] at h
    exact absurd rfl h

theorem step_observe {i now : Nat}
    (hs : s.step window maximum (.handshake i (.observe now)) = some s') :
    ∃ incarnation, Observing window maximum s s' i now incarnation := by
  obtain ⟨h, hi, hs⟩ := Option.bind_eq_some_iff.mp hs
  dsimp only [advance] at hs
  split at hs
  · rename_i incarnation hphase
    split at hs
    · cases hs
    · rename_i hlater
      cases hs
      exact ⟨incarnation, ⟨h, hi, hphase⟩, Nat.le_of_not_lt hlater,
        observeIncarnation_now (s := { s with now }) ..,
        observeIncarnation_incarnation (s := { s with now }) .., rfl⟩
  · cases hs

theorem step_owners {e : OwnerEvent} (hs : s.step window maximum e = some s') :
    (s'.incarnation = s.incarnation ∧ s'.now = s.now) ∨
      ∃ i now incarnation, Observing window maximum s s' i now incarnation := by
  cases e with
  | register key drawn =>
    cases hs
    left
    unfold registerCandidate
    dsimp only
    split <;> split <;> exact ⟨rfl, rfl⟩
  | close key => cases hs; exact .inl ⟨rfl, rfl⟩
  | closeCandidates => cases hs; exact .inl ⟨rfl, rfl⟩
  | handshake i next =>
    cases next with
    | observe now =>
      obtain ⟨incarnation, h⟩ := step_observe hs
      exact .inr ⟨i, now, incarnation, h⟩
    | promote =>
      obtain ⟨h, -, hs⟩ := Option.bind_eq_some_iff.mp hs
      dsimp only [advance] at hs
      split at hs
      · split at hs <;> (cases hs; exact .inl ⟨rfl, rfl⟩)
      · cases hs
    | receive | accept | fail | removeCandidate =>
      obtain ⟨h, -, hs⟩ := Option.bind_eq_some_iff.mp hs
      dsimp only [advance] at hs
      split at hs
      · cases hs
        exact .inl ⟨rfl, rfl⟩
      · cases hs

end Steps

/-! ## Runs -/

section Runs

variable {window maximum : Nat} {s s' : PeerOwners}

def Moves (window maximum : Nat) (s s' : PeerOwners) : Prop :=
  ∃ e, s.step window maximum e = some s'

theorem fences_preserved :
    Preserved (Moves window maximum) (fun s => s.incarnation.Fences maximum) := by
  rintro s s' ⟨e, hs⟩ h
  rcases step_owners hs with ⟨hsame, -⟩ | ⟨i, now, incarnation, hobs⟩
  · exact hsame ▸ h
  · rw [hobs.owners]
    exact h.observed PeerIncarnation.observe_observed

def Fenced (owner : ConnectionIncarnation × Nat) (s : PeerOwners) : Prop :=
  owner.2 ≤ s.now ∨ owner ∈ s.incarnation.retired

theorem fenced_preserved (owner : ConnectionIncarnation × Nat) :
    Preserved (Moves window maximum) (Fenced owner) := by
  rintro s s' ⟨e, hs⟩ h
  rcases step_owners hs with ⟨hsame, hclock⟩ | ⟨i, now, incarnation, hobs⟩
  · rwa [Fenced, hsame, hclock]
  · have hlater := hobs.later
    by_cases hpast : owner.2 ≤ now
    · exact .inl (hobs.clock ▸ hpast)
    · rcases h with h | h
      · exact absurd (h.trans hlater) hpast
      · right
        rw [hobs.owners]
        exact PeerIncarnation.observe_observed.keeps
          (PeerIncarnation.mem_live.mpr ⟨h, Nat.lt_of_not_le hpast⟩)

/-- Whoever stops being the current owner is fenced for a window from then. -/
theorem replaced_fenced {e : OwnerEvent} {previous : ConnectionIncarnation}
    (hs : s.step window maximum e = some s') (hcurrent : s.incarnation.current = some previous)
    (hreplaced : s'.incarnation.current ≠ some previous) :
    Fenced (previous, s'.now + window) s' := by
  rcases step_owners hs with ⟨hsame, -⟩ | ⟨i, now, incarnation, hobs⟩
  · exact absurd (hsame ▸ hcurrent) hreplaced
  · rw [hobs.owners] at hreplaced
    rw [Fenced, hobs.owners, hobs.clock]
    exact .inr (PeerIncarnation.observe_observed.replaced hcurrent hreplaced)

/-- A refused observation changes nothing but the owners whose fence is over. -/
theorem observeIncarnation_refused {incarnation : ConnectionIncarnation} {now : Nat}
    {e : DaemonError} (h : (s.observeIncarnation window maximum incarnation now).1 = .error e) :
    ∃ owners, (s.observeIncarnation window maximum incarnation now).2 =
        { s with incarnation := owners } ∧ owners.current = s.incarnation.current := by
  unfold observeIncarnation at h ⊢
  have hobs : PeerIncarnation.Observed s.incarnation incarnation now window maximum _ :=
    PeerIncarnation.observe_observed
  split at h
  · rename_i owners hrefused
    rw [hrefused] at hobs
    exact ⟨owners, rfl, hobs.refused⟩
  · cases h
  · cases h

/-- The handshake observes an owner for a registered candidate, or one that is the current owner
or fenced. -/
def Covered (s : PeerOwners) (i now : Nat) : Prop :=
  ∀ handshake incarnation, s.handshakes[i]? = some handshake →
    handshake.phase = .observing incarnation →
    s.Registered i ∨ s.incarnation.current = some incarnation ∨
      ∃ deadline, (incarnation, deadline) ∈ s.incarnation.live now

theorem step_covered {i now : Nat} (hcovered : s.Covered i now) (hremoved : ¬s.Registered i)
    (hs : s.step window maximum (.handshake i (.observe now)) = some s') :
    s'.incarnation.current = s.incarnation.current ∧ s'.candidates = s.candidates := by
  obtain ⟨incarnation, hobs⟩ := step_observe hs
  obtain ⟨handshake, hi, hphase⟩ := hobs.turn
  have hknown := (hcovered handshake incarnation hi hphase).resolve_left hremoved
  have hkept : PeerIncarnation.Observed s.incarnation incarnation now window maximum _ :=
    PeerIncarnation.observe_observed
  obtain ⟨hnot, hcurrent⟩ := hkept.known hknown
  rw [hobs.owners, hobs.candidates]
  exact ⟨hcurrent, observeIncarnation_candidates hnot⟩

/-- In every state any interleaving of handshakes reaches: the current owner is not fenced and no
more than `maximum` owners are; an owner that is replaced is not adopted again before the window
has passed; a refused observation leaves the owner and the candidates; and so does an observation
for a candidate no longer registered, when its owner is the current one or fenced. -/
theorem restart_fencing (h : ReflTransGen (Moves window maximum) {} s) :
    (∀ owner ∈ s.incarnation.retired, s.incarnation.current ≠ some owner.1) ∧
    s.incarnation.retired.length ≤ maximum ∧
    (∀ e s₁ s₂ previous, s.step window maximum e = some s₁ →
      s.incarnation.current = some previous → s₁.incarnation.current ≠ some previous →
      ReflTransGen (Moves window maximum) s₁ s₂ → s₂.now < s₁.now + window →
        s₂.incarnation.current ≠ some previous) ∧
    (∀ incarnation now e, (s.observeIncarnation window maximum incarnation now).1 = .error e →
      ∃ owners, (s.observeIncarnation window maximum incarnation now).2 =
          { s with incarnation := owners } ∧ owners.current = s.incarnation.current) ∧
    ∀ i now s', s.step window maximum (.handshake i (.observe now)) = some s' →
      s.Covered i now → ¬s.Registered i →
        s'.incarnation.current = s.incarnation.current ∧ s'.candidates = s.candidates := by
  have hfences : s.incarnation.Fences maximum :=
    fences_preserved.run h ⟨nofun, Nat.zero_le _⟩
  refine ⟨hfences.apart, hfences.bounded, ?_, fun _ _ _ => observeIncarnation_refused,
    fun _ _ _ hs hcovered hremoved => step_covered hcovered hremoved hs⟩
  intro e s₁ s₂ previous hs hcurrent hreplaced hrun hwithin
  have hapart : s₂.incarnation.Fences maximum :=
    fences_preserved.run ((h.tail ⟨e, hs⟩).trans hrun) ⟨nofun, Nat.zero_le _⟩
  rcases (fenced_preserved _).run hrun (replaced_fenced hs hcurrent hreplaced) with hpast | hfenced
  · exact absurd hpast (Nat.not_le_of_lt hwithin)
  · exact hapart.apart _ hfenced

end Runs

/-! ## Two handshakes -/

def run (window maximum : Nat) (s : PeerOwners) : List OwnerEvent → Option PeerOwners
  | [] => some s
  | e :: es => (s.step window maximum e).bind (run window maximum · es)

theorem run_moves {window maximum : Nat} {s s' : PeerOwners} :
    ∀ {events : List OwnerEvent}, s.run window maximum events = some s' →
      ReflTransGen (Moves window maximum) s s'
  | [], h => Option.some.inj h ▸ .refl
  | e :: _, h => by
    obtain ⟨s₁, hs, h⟩ := Option.bind_eq_some_iff.mp h
    exact .head ⟨e, hs⟩ (run_moves h)

def inboundKey : ConnectionCandidateKey := .new 1 1
def outboundKey : ConnectionCandidateKey := .new 2 1

/-- The owners of both are written, and the outbound one is observed first. -/
def bothWritten (inbound outbound : ConnectionIncarnation) : List OwnerEvent :=
  [.register inboundKey 7, .register outboundKey 8, .handshake 0 (.receive (some inbound)),
    .handshake 1 (.receive (some outbound)), .handshake 1 (.observe 5)]

theorem eq_some_getD {o : Option PeerOwners} (h : o.isSome = true) : o = some (o.getD {}) := by
  obtain ⟨s, rfl⟩ := Option.isSome_iff_exists.mp h
  rfl

/-- Both connections have the owner `2`, and the inbound one closes before its turn. -/
def sameOwner : PeerOwners :=
  (run 15 4 {} (bothWritten 2 2 ++ [.close inboundKey])).getD {}

theorem restart_fencing_same_owner :
    ¬sameOwner.Registered 0 ∧ sameOwner.incarnation.current = some 2 ∧
      ∃ s', sameOwner.step 15 4 (.handshake 0 (.observe 6)) = some s' ∧
        s'.incarnation.current = sameOwner.incarnation.current ∧
        s'.candidates = sameOwner.candidates := by
  have hreached : ReflTransGen (Moves 15 4) {} sameOwner :=
    run_moves (eq_some_getD (by decide +kernel))
  have hremoved : ¬sameOwner.Registered 0 := by decide +kernel
  have hcurrent : sameOwner.incarnation.current = some 2 := by decide +kernel
  have hcovered : sameOwner.Covered 0 6 := by
    have hturn : sameOwner.handshakes[0]? = some ⟨inboundKey, .observing 2, some (some 2)⟩ := by
      decide +kernel
    intro handshake incarnation hi hphase
    cases hturn.symm.trans hi
    cases hphase
    exact .inr (.inl hcurrent)
  have hs := eq_some_getD (o := sameOwner.step 15 4 (.handshake 0 (.observe 6)))
    (by decide +kernel)
  exact ⟨hremoved, hcurrent, _, hs, (restart_fencing hreached).2.2.2.2 _ _ _ hs hcovered hremoved⟩

/-- The inbound connection has another owner, and the outbound observation removed it. -/
def superseded : PeerOwners := (run 15 4 {} (bothWritten 1 2)).getD {}

def resumed : PeerOwners := (superseded.step 15 4 (.handshake 0 (.observe 6))).getD {}

/-- At its turn the removed handshake makes its own owner the current one, fences the owner of the
outbound candidate and removes that candidate, so that none is left. -/
theorem removed_candidate_replaces_owner :
    ReflTransGen (Moves 15 4) {} superseded ∧ ¬superseded.Registered 0 ∧
      superseded.Registered 1 ∧ superseded.incarnation.current = some 2 ∧
      superseded.step 15 4 (.handshake 0 (.observe 6)) = some resumed ∧
      resumed.incarnation = ⟨some 1, [(2, 21)]⟩ ∧ resumed.candidates.values = [] :=
  ⟨run_moves (eq_some_getD (by decide +kernel)), by decide +kernel, by decide +kernel,
    by decide +kernel, eq_some_getD (by decide +kernel), by decide +kernel, by decide +kernel⟩

end PeerOwners

end Voytty.Daemon
