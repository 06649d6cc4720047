import Voytty.Daemon.CommandGate
import Voytty.Daemon.SessionRegistry
import Voytty.Lib.Transition

/-!
# What a caller is told about its command

Session actors and the store actor take commands from a queue, each with a gate
the caller and the worker race for. `Exchange` is one command with both sides:
where the command is, what is in the reply channel and where the caller stands.
Every step is one atomic action of one side, so runs are all the interleavings.

`started` and `outcome` record what really happened: how often the command's
operation was begun and what it returned.
-/

namespace Voytty.Daemon

open Voytty.Lib Relation

variable {α : Type}

inductive CommandWorker where
  | session | store
  deriving DecidableEq, Repr

inductive CommandReply (α : Type) where
  | ran (result : Except DaemonError α)
  | expired
  | ending

inductive CommandReport (α : Type) where
  | answered (reply : CommandReply α)
  | expired
  /-- its deadline passed, or the channel was closed, after the command started -/
  | unknown (disconnected : Bool)
  /-- the channel was closed by a worker that stopped -/
  | dropped
  /-- the queue was full until the deadline, or closed -/
  | refused (full : Bool)

def CommandReport.denies : CommandReport α → Bool
  | .answered .expired | .answered .ending | .expired | .dropped | .refused _ => true
  | .answered (.ran _) | .unknown _ => false

namespace CommandWorker

def expiredError : CommandWorker → DaemonError
  | .session => deadlineExceeded "session command expired before starting its side effect"
  | .store => expiredBeforeStarting

def result (worker : CommandWorker) : CommandReport α → Except DaemonError α
  | .answered (.ran result) => result
  | .answered .expired | .expired => .error worker.expiredError
  | .answered .ending => .error sessionNotFound
  | .unknown disconnected => .error ⟨.operationOutcomeUnknown,
      if disconnected then "store command started but its response channel disconnected"
      else "store command started but did not report an outcome before its deadline"⟩
  | .dropped => .error <| match worker with
    | .session => sessionNotFound
    | .store => storeUnavailable "store actor stopped before the command outcome became ambiguous"
  | .refused full => .error <| match worker, full with
    | .session, true => deadlineExceeded "session command queue admission deadline elapsed"
    | .session, false => sessionNotFound
    | .store, true => Refusal.full.error
    | .store, false => Refusal.stopped.error

/-- The channel was closed without a reply: only the store's caller looks at the gate. -/
def afterDisconnect (worker : CommandWorker) (gate : CommandState) : CommandReport α :=
  match worker, gate with
  | .session, _ => .dropped
  | .store, .started => .unknown true
  | .store, .expired => .expired
  | .store, .queued => .dropped

/-- The exchange a caller tries when its deadline passed. A session's caller that comes too
late looks at the gate again. -/
def afterTimeout (worker : CommandWorker) (gate : CommandState) :
    Option (CommandReport α) × CommandState :=
  match worker, gate with
  | _, .queued => (some .expired, .expired)
  | .session, gate => (none, gate)
  | .store, .expired => (some .expired, .expired)
  | .store, .started => (some (.unknown false), .started)

end CommandWorker

inductive CommandPlace (α : Type) where
  /-- with its caller, who waits for room in the queue -/
  | sending
  | queued
  | running
  | replying (reply : CommandReply α)
  | gone

inductive ReplyChannel (α : Type) where
  | empty
  | full (reply : CommandReply α)
  | closed

inductive CommandCaller (α : Type) where
  | sending
  | waiting
  | rechecking
  /-- a session's caller that found its command started and waits without a deadline -/
  | receiving
  | returned (report : CommandReport α)
  | cancelled

structure Exchange (α : Type) where
  gate : CommandState := .queued
  command : CommandPlace α := .sending
  channel : ReplyChannel α := .empty
  caller : CommandCaller α := .sending
  started : Nat := 0
  outcome : Option (Except DaemonError α) := none

namespace Exchange

/-- The caller goes away; a command it still holds goes with it. -/
def cancel (s : Exchange α) : Exchange α :=
  { s with
    caller := .cancelled
    command := match s.command with
      | .sending => .gone
      | command => command }

def start (s : Exchange α) (late : Bool) : Exchange α :=
  let (started, gate) := tryStart late s.gate
  if started then { s with gate, command := .running, started := s.started + 1 }
  else { s with gate, command := .replying .expired }

def timeout (worker : CommandWorker) (s : Exchange α) : Exchange α :=
  let (report, gate) := worker.afterTimeout s.gate
  { s with gate, caller := report.elim .rechecking .returned }

def recheck (s : Exchange α) : Exchange α :=
  { s with caller := if s.gate = .started then .receiving else .returned .expired }

inductive Step (worker : CommandWorker) : Exchange α → Exchange α → Prop where
  | accept {s : Exchange α} (h : s.caller = .sending) :
      Step worker s { s with command := .queued, caller := .waiting }
  | refuseLate {s : Exchange α} (h : s.caller = .sending) :
      Step worker s
        { s with gate := .expired, command := .gone, caller := .returned (.refused true) }
  | refuseStopped {s : Exchange α} (h : s.caller = .sending) :
      Step worker s { s with command := .gone, caller := .returned (.refused false) }
  | cancel {s : Exchange α} (h : ∀ report, s.caller ≠ .returned report) : Step worker s s.cancel
  | receive {s : Exchange α} {reply : CommandReply α}
      (h : s.caller = .waiting ∨ s.caller = .receiving) (hc : s.channel = .full reply) :
      Step worker s { s with caller := .returned (.answered reply) }
  | disconnect {s : Exchange α} (h : s.caller = .waiting) (hc : s.channel = .closed) :
      Step worker s { s with caller := .returned (worker.afterDisconnect s.gate) }
  | timeout {s : Exchange α} (h : s.caller = .waiting) : Step worker s (s.timeout worker)
  | recheck {s : Exchange α} (h : s.caller = .rechecking) : Step worker s s.recheck
  | hangUp {s : Exchange α} (h : s.caller = .receiving) (hc : s.channel = .closed) :
      Step worker s { s with caller := .returned .dropped }
  | start {s : Exchange α} (h : s.command = .queued) (late : Bool) : Step worker s (s.start late)
  | ending {s : Exchange α} (hw : worker = .session) (h : s.command = .queued) :
      Step worker s { s with command := .replying .ending }
  | finish {s : Exchange α} (h : s.command = .running) (result : Except DaemonError α) :
      Step worker s { s with command := .replying (.ran result), outcome := some result }
  | reply {s : Exchange α} {reply : CommandReply α} (h : s.command = .replying reply) :
      Step worker s { s with command := .gone, channel := .full reply }
  /-- the operation unwinds and the reply is dropped with it -/
  | unwind {s : Exchange α} (h : s.command = .running) :
      Step worker s { s with command := .gone, channel := .closed }
  | discard {s : Exchange α} (h : s.command = .queued) :
      Step worker s { s with command := .gone, channel := .closed }

/-- No operation of a session command unwinds. -/
def Orderly (worker : CommandWorker) (s s' : Exchange α) : Prop :=
  worker = .session → s.command = .running → s'.command ≠ .gone

/-! ## The invariant -/

/-- The operation was not begun and the gate does not say that it was. -/
def Idle (s : Exchange α) : Prop := s.started = 0 ∧ s.gate ≠ .started

def Begun (s : Exchange α) : Prop := s.started = 1 ∧ s.gate = .started

def Placed (worker : CommandWorker) (s : Exchange α) : Prop :=
  match s.command, s.channel with
  | .sending, .empty => s.started = 0 ∧ s.gate = .queued
  | .queued, .empty => s.Idle
  | .running, .empty => s.Begun
  | .replying (.ran result), .empty => s.Begun ∧ s.outcome = some result
  | .replying .expired, .empty | .replying .ending, .empty => s.Idle
  | .gone, .empty => s.Idle
  | .gone, .full (.ran result) => s.Begun ∧ s.outcome = some result
  | .gone, .full .expired | .gone, .full .ending => s.Idle
  | .gone, .closed => s.Idle ∨ worker = .store ∧ s.Begun
  | _, _ => False

/-- What a report says is so. -/
def Told (s : Exchange α) : CommandReport α → Prop
  | .answered (.ran result) => (s.Begun ∧ s.outcome = some result) ∧ s.command = .gone
  | .answered .expired | .answered .ending | .dropped | .refused _ => s.Idle ∧ s.command = .gone
  | .expired => s.Idle ∧ (s.gate = .expired ∨ s.command = .gone)
  | .unknown _ => True

def Stands (worker : CommandWorker) (s : Exchange α) : Prop :=
  match s.caller with
  | .sending => s.command = .sending
  | .waiting => s.command ≠ .sending
  | .rechecking => (worker = .session ∧ s.gate ≠ .queued) ∧ s.command ≠ .sending
  | .receiving => (worker = .session ∧ s.gate = .started) ∧ s.command ≠ .sending
  | .returned report => s.Told report ∧ s.command ≠ .sending
  | .cancelled => s.command ≠ .sending

structure Honest (worker : CommandWorker) (s : Exchange α) : Prop where
  placed : s.Placed worker
  stands : s.Stands worker

theorem start_honest (worker : CommandWorker) : Honest worker ({} : Exchange α) :=
  ⟨⟨rfl, rfl⟩, rfl⟩

section Steps

variable {worker : CommandWorker} {s s' : Exchange α}

variable {report : CommandReport α}

theorem Told.early (h : s.Told report) (hg : s.command ≠ .gone) :
    (∃ b, report = .unknown b) ∨ report = .expired ∧ s.Idle ∧ s.gate = .expired := by
  match report with
  | .answered (.ran _) | .answered .expired | .answered .ending | .dropped | .refused _ =>
    exact absurd h.2 hg
  | .expired => exact .inr ⟨rfl, h.1, h.2.resolve_right hg⟩
  | .unknown b => exact .inl ⟨b, rfl⟩

theorem Stands.meanwhile (h : s.Stands worker) (hcaller : s'.caller = s.caller)
    (hs : s.command ≠ .sending) (hg : s.command ≠ .gone) (hs' : s'.command ≠ .sending)
    (hgate : s.gate ≠ .queued → s'.gate = s.gate)
    (hidle : s.Idle → s.gate = .expired → s'.started = 0) :
    s'.Stands worker := by
  unfold Stands at h ⊢
  rw [hcaller]
  cases hc : s.caller with
  | sending =>
    rw [hc] at h
    exact absurd h hs
  | waiting | cancelled => exact hs'
  | rechecking =>
    rw [hc] at h
    exact ⟨⟨h.1.1, by rw [hgate h.1.2]; exact h.1.2⟩, hs'⟩
  | receiving =>
    rw [hc] at h
    exact ⟨⟨h.1.1, by rw [hgate (by simp [h.1.2]), h.1.2]⟩, hs'⟩
  | returned report =>
    rw [hc] at h
    refine ⟨?_, hs'⟩
    rcases h.1.early hg with ⟨b, rfl⟩ | ⟨rfl, hi, he⟩
    · trivial
    · have hgate' : s'.gate = .expired := by rw [hgate (by simp [he]), he]
      exact ⟨⟨hidle hi he, by simp [hgate']⟩, .inl hgate'⟩

theorem Placed.empty (h : s.Placed worker) (hc : s.command ≠ .gone) : s.channel = .empty := by
  unfold Placed at h
  split at h <;> first | assumption | exact absurd ‹_› hc | exact h.elim

theorem Placed.sending (h : s.Placed worker) (hc : s.command = .sending) :
    s.channel = .empty ∧ s.started = 0 ∧ s.gate = .queued := by
  have hch := h.empty (by simp [hc])
  exact ⟨hch, by rwa [Placed, hc, hch] at h⟩

theorem Placed.queued (h : s.Placed worker) (hc : s.command = .queued) :
    s.channel = .empty ∧ s.Idle := by
  have hch := h.empty (by simp [hc])
  exact ⟨hch, by rwa [Placed, hc, hch] at h⟩

theorem Placed.running (h : s.Placed worker) (hc : s.command = .running) :
    s.channel = .empty ∧ s.Begun := by
  have hch := h.empty (by simp [hc])
  exact ⟨hch, by rwa [Placed, hc, hch] at h⟩

theorem Placed.full {reply : CommandReply α} (h : s.Placed worker)
    (hch : s.channel = .full reply) : s.Told (.answered reply) ∧ s.command = .gone := by
  unfold Placed at h
  rw [hch] at h
  cases hc : s.command with
  | gone => cases reply <;> rw [hc] at h <;> exact ⟨⟨h, hc⟩, rfl⟩
  | replying reply => rw [hc] at h; cases reply <;> exact h.elim
  | sending | queued | running => rw [hc] at h; exact h.elim

theorem Placed.closed (h : s.Placed worker) (hch : s.channel = .closed) :
    s.command = .gone ∧ (s.Idle ∨ worker = .store ∧ s.Begun) := by
  unfold Placed at h
  rw [hch] at h
  cases hc : s.command with
  | gone => rw [hc] at h; exact ⟨rfl, h⟩
  | replying reply => rw [hc] at h; cases reply <;> exact h.elim
  | sending | queued | running => rw [hc] at h; exact h.elim

theorem Placed.idle (h : s.Placed worker) (hg : s.gate ≠ .started) : s.Idle := by
  have hbegun : ¬s.Begun := fun hb => hg hb.2
  unfold Placed at h
  split at h
  case h_1 => exact ⟨h.1, hg⟩
  case h_2 | h_5 | h_6 | h_7 | h_9 | h_10 => exact h
  case h_3 => exact absurd h hbegun
  case h_4 | h_8 => exact absurd h.1 hbegun
  case h_11 => exact h.resolve_right fun h => hbegun h.2
  case h_12 => exact h.elim

theorem Placed.expire (h : s.Placed worker) (hs : s.command ≠ .sending) (hg : s.gate = .queued) :
    Placed worker { s with gate := .expired } := by
  have hidle := h.idle (by simp [hg])
  have hidle' : Idle { s with gate := .expired } := ⟨hidle.1, nofun⟩
  have hbegun : ¬s.Begun := fun hb => by simp [Begun, hg] at hb
  unfold Placed at h ⊢
  split at h
  case h_1 hc _ => exact absurd hc hs
  case h_2 hc hch | h_5 hc hch | h_6 hc hch | h_7 hc hch | h_9 hc hch | h_10 hc hch =>
    simp only [hc, hch]
    exact hidle'
  case h_3 => exact absurd h hbegun
  case h_4 | h_8 => exact absurd h.1 hbegun
  case h_11 hc hch =>
    simp only [hc, hch]
    exact .inl hidle'
  case h_12 => exact h.elim

/-- The caller's report is true, whatever its deadline finds. -/
theorem Honest.timeout (h : s.Honest worker) (hc : s.caller = .waiting) :
    (s.timeout worker).Honest worker := by
  have hs : s.command ≠ .sending := by simpa [Stands, hc] using h.stands
  obtain ⟨gate, command, channel, caller, started, outcome⟩ := s
  cases gate with
  | queued =>
    have hidle := h.placed.idle nofun
    cases worker <;> exact ⟨h.placed.expire hs rfl, ⟨⟨hidle.1, nofun⟩, .inl rfl⟩, hs⟩
  | started =>
    cases worker with
    | session => exact ⟨h.placed, ⟨rfl, nofun⟩, hs⟩
    | store => exact ⟨h.placed, trivial, hs⟩
  | expired =>
    have hidle := h.placed.idle nofun
    cases worker with
    | session => exact ⟨h.placed, ⟨rfl, nofun⟩, hs⟩
    | store => exact ⟨h.placed, ⟨hidle, .inl rfl⟩, hs⟩

theorem Honest.recheck (h : s.Honest worker) (hc : s.caller = .rechecking) :
    s.recheck.Honest worker := by
  have hs : (worker = .session ∧ s.gate ≠ .queued) ∧ s.command ≠ .sending := by
    simpa only [Stands, hc] using h.stands
  obtain ⟨gate, command, channel, caller, started, outcome⟩ := s
  cases gate with
  | queued => exact absurd rfl hs.1.2
  | started => exact ⟨h.placed, ⟨hs.1.1, rfl⟩, hs.2⟩
  | expired => exact ⟨h.placed, ⟨h.placed.idle nofun, .inl rfl⟩, hs.2⟩

theorem Honest.disconnect (h : s.Honest worker) (hch : s.channel = .closed) :
    s.Told (worker.afterDisconnect s.gate) := by
  obtain ⟨hgone, hi⟩ := h.placed.closed hch
  cases worker with
  | session => exact ⟨hi.resolve_right nofun, hgone⟩
  | store =>
    cases hg : s.gate with
    | started => trivial
    | queued => exact ⟨h.placed.idle (by simp [hg]), hgone⟩
    | expired => exact ⟨h.placed.idle (by simp [hg]), .inr hgone⟩

theorem Honest.cancel (h : s.Honest worker) : s.cancel.Honest worker := by
  cases hc : s.command with
  | sending =>
    obtain ⟨hch, h0, hg⟩ := h.placed.sending hc
    refine ⟨?_, ?_⟩
    · simp only [Exchange.cancel, Placed, hc, hch]
      exact ⟨h0, by simp [hg]⟩
    · simp [Exchange.cancel, Stands, hc]
  | queued | running | replying | gone =>
    have hp := h.placed
    refine ⟨?_, by simp [Exchange.cancel, Stands, hc]⟩
    simp only [Exchange.cancel, Placed, hc] at hp ⊢
    exact hp

theorem Honest.start (h : s.Honest worker) (hc : s.command = .queued) (late : Bool) :
    (s.start late).Honest worker := by
  obtain ⟨hch, hi⟩ := h.placed.queued hc
  obtain ⟨gate, command, channel, caller, started, outcome⟩ := s
  obtain rfl : command = .queued := hc
  obtain rfl : channel = .empty := hch
  cases gate with
  | started => exact absurd rfl hi.2
  | queued =>
    cases late with
    | true => exact ⟨⟨hi.1, nofun⟩, h.stands.meanwhile rfl nofun nofun nofun nofun nofun⟩
    | false =>
      refine ⟨⟨?_, rfl⟩, h.stands.meanwhile rfl nofun nofun nofun ?_ nofun⟩
      · exact congrArg (· + 1) hi.1
      · exact fun hg => absurd rfl hg
  | expired =>
    have hstay : tryStart late .expired = (false, .expired) := by cases late <;> rfl
    simp only [Exchange.start, hstay]
    exact ⟨hi, h.stands.meanwhile rfl nofun nofun nofun (fun _ => rfl) fun hi _ => hi.1⟩

theorem Honest.step (h : s.Honest worker) (hstep : Step worker s s') (ho : Orderly worker s s') :
    s'.Honest worker := by
  cases hstep with
  | accept hc =>
    have hs : s.command = .sending := by simpa [Stands, hc] using h.stands
    obtain ⟨hch, h0, hg⟩ := h.placed.sending hs
    refine ⟨?_, nofun⟩
    simp only [Placed, hch]
    exact ⟨h0, by simp [hg]⟩
  | refuseLate hc =>
    have hs : s.command = .sending := by simpa [Stands, hc] using h.stands
    obtain ⟨hch, h0, hg⟩ := h.placed.sending hs
    refine ⟨?_, ⟨⟨h0, nofun⟩, rfl⟩, nofun⟩
    simp only [Placed, hch]
    exact ⟨h0, nofun⟩
  | refuseStopped hc =>
    have hs : s.command = .sending := by simpa [Stands, hc] using h.stands
    obtain ⟨hch, h0, hg⟩ := h.placed.sending hs
    refine ⟨?_, ⟨⟨h0, by simp [hg]⟩, rfl⟩, nofun⟩
    simp only [Placed, hch]
    exact ⟨h0, by simp [hg]⟩
  | cancel hc => exact h.cancel
  | receive hc hch =>
    obtain ⟨htold, hgone⟩ := h.placed.full hch
    exact ⟨h.placed, htold, by simp [hgone]⟩
  | disconnect hc hch =>
    have hgone := (h.placed.closed hch).1
    exact ⟨h.placed, h.disconnect hch, by simp [hgone]⟩
  | timeout hc => exact h.timeout hc
  | recheck hc => exact h.recheck hc
  | hangUp hc hch =>
    -- a session's caller that saw its command started gets a reply
    have hs : (worker = .session ∧ s.gate = .started) ∧ s.command ≠ .sending := by
      simpa only [Stands, hc] using h.stands
    rcases (h.placed.closed hch).2 with hi | ⟨hw, -⟩
    · exact absurd hs.1.2 hi.2
    · rw [hs.1.1] at hw
      cases hw
  | start hc late => exact h.start hc late
  | ending hw hc =>
    obtain ⟨hch, hi⟩ := h.placed.queued hc
    refine ⟨?_, h.stands.meanwhile rfl (by simp [hc]) (by simp [hc])
      nofun (fun _ => rfl) fun hi _ => hi.1⟩
    simp only [Placed, hch]
    exact hi
  | finish hc result =>
    obtain ⟨hch, hb⟩ := h.placed.running hc
    refine ⟨?_, h.stands.meanwhile rfl (by simp [hc]) (by simp [hc])
      nofun (fun _ => rfl) fun hi _ => hi.1⟩
    simp only [Placed, hch]
    exact ⟨hb, trivial⟩
  | @reply reply hc =>
    have hch := h.placed.empty (by simp [hc])
    have hp := h.placed
    refine ⟨?_, h.stands.meanwhile rfl (by simp [hc]) (by simp [hc])
      nofun (fun _ => rfl) fun hi _ => hi.1⟩
    unfold Placed at hp ⊢
    rw [hc, hch] at hp
    cases reply <;> exact hp
  | unwind hc =>
    obtain ⟨hch, hb⟩ := h.placed.running hc
    refine ⟨?_, h.stands.meanwhile rfl (by simp [hc]) (by simp [hc])
      nofun (fun _ => rfl) fun hi _ => hi.1⟩
    cases worker with
    | session => exact absurd rfl (ho rfl hc)
    | store => exact .inr ⟨rfl, hb⟩
  | discard hc =>
    obtain ⟨hch, hi⟩ := h.placed.queued hc
    exact ⟨.inl hi, h.stands.meanwhile rfl (by simp [hc]) (by simp [hc]) nofun (fun _ => rfl)
      fun hi _ => hi.1⟩

theorem Step.returned (h : Step worker s s') (hr : s.caller = .returned report) :
    s'.caller = .returned report := by
  cases h with
  | accept hc | refuseLate hc | refuseStopped hc | timeout hc | recheck hc =>
    rw [hc] at hr
    cases hr
  | disconnect hc hch | hangUp hc hch =>
    rw [hc] at hr
    cases hr
  | receive hc hch => rcases hc with hc | hc <;> rw [hc] at hr <;> cases hr
  | cancel hc => exact absurd hr (hc report)
  | start hc late =>
    unfold Exchange.start
    split
    split <;> exact hr
  | ending | finish | reply | unwind | discard => exact hr

def OrderlyStep (worker : CommandWorker) (s s' : Exchange α) : Prop :=
  Step worker s s' ∧ Orderly worker s s'

theorem honest_preserved : Preserved (OrderlyStep (α := α) worker) (Honest worker) :=
  fun _ _ hstep h => h.step hstep.1 hstep.2

theorem Told.denied (h : s.Told report) (hd : report.denies) :
    s.started = 0 := by
  match report with
  | .answered .expired | .answered .ending | .expired | .dropped | .refused _ => exact h.1.1
  | .answered (.ran _) | .unknown _ => cases hd

theorem Honest.told (h : s.Honest worker) (hr : s.caller = .returned report) : s.Told report := by
  have hs := h.stands
  rw [Stands, hr] at hs
  exact hs.1

theorem Placed.started_le (h : s.Placed worker) : s.started ≤ 1 := by
  by_cases hg : s.gate = .started
  · have hidle : ¬s.Idle := fun hi => hi.2 hg
    unfold Placed at h
    split at h
    case h_1 => omega
    case h_2 | h_5 | h_6 | h_7 | h_9 | h_10 => exact absurd h hidle
    case h_3 => exact h.1.le
    case h_4 | h_8 => exact h.1.1.le
    case h_11 => exact h.elim (fun hi => absurd hi hidle) fun h => h.2.1.le
    case h_12 => exact h.elim
  · have := (h.idle hg).1
    omega

end Steps

/-- In every interleaving in which no operation of a session command unwinds, a command is
executed at most once, a command reported as not executed never is, and a command that was
begun is reported with its result or as unknown. -/
theorem command_reports_are_honest (worker : CommandWorker) {s : Exchange α}
    (hrun : ReflTransGen (OrderlyStep worker) {} s) :
    s.started ≤ 1 ∧ ∀ report, s.caller = .returned report →
      (report.denies → ∀ s', ReflTransGen (OrderlyStep worker) s s' → s'.started = 0) ∧
      (s.started = 1 → (∃ b, report = .unknown b) ∨
        ∃ result, report = .answered (.ran result) ∧ s.outcome = some result) := by
  have h := honest_preserved.run hrun (start_honest worker)
  refine ⟨h.placed.started_le, fun report hr => ⟨fun hd s' hmore => ?_, fun hstarted => ?_⟩⟩
  · have hstay : Preserved (OrderlyStep worker) fun t : Exchange α => t.caller = .returned report :=
      fun _ _ hstep => hstep.1.returned
    have hr' := hstay.run hmore hr
    exact ((honest_preserved.run hmore h).told hr').denied hd
  · have htold := h.told hr
    cases hd : report.denies with
    | true =>
      have := htold.denied hd
      omega
    | false =>
      match report with
      | .answered (.ran result) => exact .inr ⟨result, rfl, htold.1.2⟩
      | .unknown b => exact .inl ⟨b, rfl⟩

def begun : Exchange Unit := ({ command := .queued, caller := .waiting } : Exchange Unit).start false

theorem begun_run (worker : CommandWorker) : ReflTransGen (OrderlyStep worker) {} begun :=
  (ReflTransGen.single ⟨.accept rfl, nofun⟩).tail ⟨.start rfl false, nofun⟩

/-- The caller's deadline passes; it finds the command begun and waits for its result. -/
def answeredLate : Exchange Unit :=
  { begun with
    command := .gone, channel := .full (.ran (.ok ())), outcome := some (.ok ())
    caller := .returned (.answered (.ran (.ok ()))) }

theorem answeredLate_run : ReflTransGen (OrderlyStep .session) {} answeredLate :=
  (((((begun_run .session).tail ⟨.timeout rfl, nofun⟩).tail ⟨.recheck rfl, nofun⟩).tail
    ⟨.finish rfl (.ok ()), nofun⟩).tail ⟨.reply rfl, nofun⟩).tail ⟨.receive (.inr rfl) rfl, nofun⟩

theorem command_reports_are_honest_late :
    answeredLate.started = 1 ∧ ((∃ b, CommandReport.answered (.ran (.ok ())) = .unknown b) ∨
      ∃ result, CommandReport.answered (.ran (.ok ())) = .answered (.ran result) ∧
        answeredLate.outcome = some result) :=
  ⟨rfl, ((command_reports_are_honest .session answeredLate_run).2 _ rfl).2 rfl⟩

/-- The operation of a session command unwinds: its caller is told that the session is not
live, which is what it is told of a command that was dropped unexecuted. -/
theorem unwound_command_is_denied :
    ∃ s : Exchange Unit, ReflTransGen (Step .session) {} s ∧ s.started = 1 ∧
      s.caller = .returned .dropped ∧
      CommandWorker.session.result (α := Unit) .dropped = .error sessionNotFound :=
  ⟨_, (((ReflTransGen.single (.accept rfl)).tail (.start rfl false)).tail (.unwind rfl)).tail
    (.disconnect rfl rfl), rfl, rfl, rfl⟩

end Exchange

end Voytty.Daemon
