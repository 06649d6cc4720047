import Voytty.Daemon.Store

/-!
# Commands to the store actor

A caller hands the store actor a command with a deadline and waits for the reply.
The gate they share decides races: the actor may start a command only while it
is queued, a caller whose deadline passes expires it only while it is queued, so
a caller that finds it started cannot tell what became of it.

`Call` is one command with the two sides of its gate and its reply channel put
together, so that an impossible combination cannot be written.
-/

namespace Voytty.Daemon

variable {α : Type}

/-! ## The gate -/

inductive CommandState where
  | queued | started | expired
  deriving DecidableEq, Repr

def tryStart (late : Bool) (gate : CommandState) : Bool × CommandState :=
  if late then (false, if gate = .queued then .expired else gate)
  else if gate = .queued then (true, .started)
  else (false, gate)

inductive Response (α : Type) where
  | received (result : Except DaemonError α)
  | disconnected
  | timeout

def expiredBeforeStarting : DaemonError :=
  deadlineExceeded "store command expired before starting"

/-- What the caller makes of it, and the gate afterwards. -/
def waitForStoreResponse (response : Response α) (gate : CommandState) :
    Except DaemonError α × CommandState :=
  match response with
  | .received result => (result, gate)
  | .disconnected =>
    match gate with
    | .started => (.error ⟨.operationOutcomeUnknown,
        "store command started but its response channel disconnected"⟩, gate)
    | .expired => (.error expiredBeforeStarting, gate)
    | .queued => (.error (storeUnavailable
        "store actor stopped before the command outcome became ambiguous"), gate)
  | .timeout =>
    match gate with
    | .queued => (.error expiredBeforeStarting, .expired)
    | .expired => (.error expiredBeforeStarting, .expired)
    | .started => (.error ⟨.operationOutcomeUnknown,
        "store command started but did not report an outcome before its deadline"⟩, gate)

/-- Why a request can end before its command is queued. -/
inductive Refusal where
  | late | full | stopped
  /-- the blocking worker never ran -/
  | cancelled (detail : String)
  deriving DecidableEq, Repr

def Refusal.error : Refusal → DaemonError
  | .late => deadlineExceeded "store runtime wait deadline elapsed before dispatch"
  | .full => deadlineExceeded "store command queue admission deadline elapsed"
  | .stopped => storeUnavailable "store actor has stopped"
  | .cancelled detail =>
    ⟨.cancelled, "store blocking worker ended unexpectedly: " ++ detail⟩

/-! ## One command -/

inductive Delivery where
  | pending | sent | lost
  deriving DecidableEq, Repr

/-- A command, from the caller's request to its reply. -/
inductive Call (α : Type) where
  /-- on its way to the actor, or in its queue -/
  | queued
  | refused (reason : Refusal)
  /-- dropped by an actor that stopped before it started -/
  | discarded
  | expired
  | running
  /-- started and dropped with its transaction undone -/
  | aborted
  /-- its transaction decided; the reply is under way, sent or lost -/
  | ran (result : Except DaemonError α) (delivery : Delivery)

namespace Call

def gate : Call α → CommandState
  | queued | refused _ | discarded => .queued
  | expired => .expired
  | running | aborted | ran _ _ => .started

/-- Its transaction may still be decided. -/
def Live : Call α → Prop
  | queued | running => True
  | _ => False

def Committed (call : Call α) (value : α) : Prop := ∃ delivery, call = ran (.ok value) delivery

/-- What the actor and the channel do without deciding the transaction. -/
inductive Moves : Call α → Call α → Prop where
  | refuse (reason : Refusal) : Moves queued (refused reason)
  | discard : Moves queued discarded
  | meet (late : Bool) : Moves queued (if (tryStart late .queued).1 then running else expired)
  | abort : Moves running aborted
  | reply (result : Except DaemonError α) : Moves (ran result .pending) (ran result .sent)
  | lose (result : Except DaemonError α) : Moves (ran result .pending) (ran result .lost)

/-- What the wait can see. A deadline may pass at any time, also beside a reply. -/
inductive Sees : Call α → Response α → Prop where
  | reply (result : Except DaemonError α) : Sees (ran result .sent) (.received result)
  | expired : Sees expired (.received (.error expiredBeforeStarting))
  | dropped {call : Call α}
      (h : call = discarded ∨ call = expired ∨ call = aborted ∨ ∃ r, call = ran r .lost) :
      Sees call .disconnected
  | timeout {call : Call α} (h : ∀ reason, call ≠ refused reason) : Sees call .timeout

/-- The caller's deadline expires a queued command. -/
def settle (call : Call α) (response : Response α) : Call α :=
  match call, response with
  | queued, .timeout | discarded, .timeout => expired
  | call, _ => call

/-- The request ends with `result` for its caller. -/
inductive Returns : Call α → Except DaemonError α → Call α → Prop where
  | refused (reason : Refusal) : Returns (refused reason) (.error reason.error) (refused reason)
  | waited {call : Call α} {response : Response α} (h : call.Sees response) :
      Returns call (waitForStoreResponse response call.gate).1 (call.settle response)

variable {call call' : Call α} {value : α} {result : Except DaemonError α}

theorem Moves.committed (h : Moves call call') (value : α) :
    call'.Committed value ↔ call.Committed value := by
  cases h with
  | meet late => cases late <;> simp [Committed, tryStart]
  | refuse | discard | abort | reply | lose => simp [Committed]

theorem Moves.live (h : Moves call call') (hl : call'.Live) : call.Live := by
  cases h with
  | refuse | discard | meet => trivial
  | abort | reply | lose => exact hl.elim

theorem Moves.not_queued (h : Moves call call') : call' ≠ queued := by
  cases h with
  | meet late => cases late <;> simp [tryStart]
  | refuse | discard | abort | reply | lose => nofun

theorem Committed.not_live (h : call.Committed value) :
    ¬call.Live ∧ call.gate = .started := by
  obtain ⟨delivery, rfl⟩ := h
  exact ⟨id, rfl⟩

theorem Committed.unique {value' : α} (h : call.Committed value) (h' : call.Committed value') :
    value = value' := by
  obtain ⟨delivery, rfl⟩ := h
  obtain ⟨delivery', h'⟩ := h'
  exact Except.ok.inj (Call.ran.inj h').1

theorem Returns.ok (h : Returns call (.ok value) call') :
    call' = call ∧ call.Committed value := by
  generalize hr : Except.ok value = result at h
  cases h with
  | refused => cases hr
  | waited h =>
    cases h with
    | reply result =>
      obtain rfl : Except.ok value = result := hr
      exact ⟨rfl, _, rfl⟩
    | expired => cases hr
    | dropped h => rcases h with rfl | rfl | rfl | ⟨r, rfl⟩ <;> cases hr
    | timeout h => cases call <;> cases hr

theorem Returns.committed (h : Returns call result call') (value : α) :
    call'.Committed value ↔ call.Committed value := by
  cases h with
  | refused => rfl
  | waited h =>
    cases h with
    | reply | expired => rfl
    | dropped h => rcases h with rfl | rfl | rfl | ⟨r, rfl⟩ <;> rfl
    | timeout h => cases call <;> simp [Committed, settle]

theorem Returns.live (h : Returns call result call') (hl : call'.Live) : call.Live := by
  cases h with
  | refused => exact hl
  | @waited call response h =>
    cases call <;> cases response <;> first | exact hl | trivial

theorem Returns.not_queued (h : Returns call result call') : call' ≠ queued := by
  cases h with
  | refused => nofun
  | waited h =>
    cases h with
    | reply | expired => nofun
    | dropped h => rcases h with rfl | rfl | rfl | ⟨r, rfl⟩ <;> nofun
    | timeout h => cases call <;> nofun

end Call

end Voytty.Daemon
