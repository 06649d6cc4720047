import Voytty.Lib.Fair

/-!
# The PTY byte queue

`daemon/src/terminal_driver.rs`: the bounded queue between the thread that
reads the PTY and the thread that owns the terminal model. A call takes turns
with the lock; a turn returns or waits on a condition variable, which gives the
lock back. `finish`, `abort` and `complete` notify after they released the
lock, so their notifications are steps of their own.
-/

namespace Voytty.Daemon

open Voytty.Lib

abbrev Chunk := List UInt8

/-- The state under the queue's lock, and its capacity. -/
structure ByteQueue where
  capacity : Nat
  chunks : List Chunk := []
  maximumPending : Nat := 0
  inFlight : Nat := 0
  finished : Bool := false
  aborted : Bool := false
  deriving DecidableEq, Repr

inductive QueueRead where
  | bytes (bytes : Chunk)
  | deadline
  | finished
  deriving DecidableEq, Repr

/-- What a call does with the lock in hand: it returns, or it waits. -/
inductive QueueTurn (α : Type) where
  | returns (value : α) (queue : ByteQueue)
  | waits
  deriving DecidableEq, Repr

namespace ByteQueue

variable (q : ByteQueue)

def closed : Prop := q.finished = true ∨ q.aborted = true

instance : Decidable q.closed := inferInstanceAs (Decidable (_ ∨ _))

def push (bytes : Chunk) : QueueTurn Bool :=
  if q.chunks.length = q.capacity ∧ !q.finished ∧ !q.aborted then .waits
  else if q.finished ∨ q.aborted then .returns false q
  else .returns true
    { q with
      chunks := q.chunks ++ [bytes]
      maximumPending := max q.maximumPending (q.chunks ++ [bytes]).length }

def popUntil (deadline : Option Nat) (now : Nat) : QueueTurn QueueRead :=
  if q.chunks.isEmpty ∧ !q.finished ∧ !q.aborted then
    match deadline with
    | some deadline => if now ≥ deadline then .returns .deadline q else .waits
    | none => .waits
  else
    match q.chunks with
    | bytes :: rest =>
      .returns (.bytes bytes)
        { q with chunks := rest, inFlight := min (q.inFlight + 1) (2 ^ 64 - 1) }
    | [] => .returns .finished q

def complete : ByteQueue := { q with inFlight := q.inFlight - 1 }

def finish : ByteQueue := { q with finished := true }

def abort : ByteQueue := { q with aborted := true }

/-! ## What a turn does -/

variable {q}

/-- A push waits for room in an open queue, is refused by a closed one, or appends. -/
theorem push_cases (bytes : Chunk) :
    (q.push bytes = .waits ∧ ¬q.closed ∧ q.chunks.length = q.capacity) ∨
      (q.push bytes = .returns false q ∧ q.closed) ∨
      ∃ maximum, q.push bytes = .returns true
          { q with chunks := q.chunks ++ [bytes], maximumPending := maximum } ∧
        ¬q.closed ∧ q.chunks.length ≠ q.capacity ∧
        maximum = max q.maximumPending (q.chunks.length + 1) := by
  unfold push closed
  by_cases hclosed : q.finished = true ∨ q.aborted = true
  · have hstop : ¬(q.chunks.length = q.capacity ∧ (!q.finished) = true ∧ (!q.aborted) = true) := by
      rcases hclosed with h | h <;> simp [h]
    rw [if_neg hstop, if_pos hclosed]
    exact .inr (.inl ⟨rfl, hclosed⟩)
  · have hopen : (!q.finished) = true ∧ (!q.aborted) = true := by simpa [not_or] using hclosed
    by_cases hfull : q.chunks.length = q.capacity
    · rw [if_pos ⟨hfull, hopen⟩]
      exact .inl ⟨rfl, hclosed, hfull⟩
    · rw [if_neg fun h => hfull h.1, if_neg hclosed]
      exact .inr (.inr ⟨_, rfl, hclosed, hfull, by simp⟩)

/-- A pop waits or gives up on an empty open queue, takes the oldest chunk, or finds a closed
queue used up. -/
theorem popUntil_cases (deadline : Option Nat) (now : Nat) :
    ((q.popUntil deadline now = .waits ∨ q.popUntil deadline now = .returns .deadline q) ∧
        ¬q.closed ∧ q.chunks = []) ∨
      (q.popUntil deadline now = .returns .finished q ∧ q.closed ∧ q.chunks = []) ∨
      ∃ bytes rest inFlight, q.chunks = bytes :: rest ∧
        q.popUntil deadline now = .returns (.bytes bytes) { q with chunks := rest, inFlight } := by
  unfold popUntil closed
  cases hchunks : q.chunks with
  | cons bytes rest =>
    refine .inr (.inr ⟨bytes, rest, min (q.inFlight + 1) (2 ^ 64 - 1), rfl, ?_⟩)
    rw [if_neg (by simp)]
  | nil =>
    by_cases hclosed : q.finished = true ∨ q.aborted = true
    · have hstop : ¬((!q.finished) = true ∧ (!q.aborted) = true) := by
        rcases hclosed with h | h <;> simp [h]
      rw [if_neg fun h => hstop h.2]
      exact .inr (.inl ⟨rfl, hclosed, rfl⟩)
    · have hopen : (!q.finished) = true ∧ (!q.aborted) = true := by simpa [not_or] using hclosed
      rw [if_pos ⟨rfl, hopen⟩]
      refine .inl ⟨?_, hclosed, rfl⟩
      split
      · split
        · exact .inr rfl
        · exact .inl rfl
      · exact .inl rfl

end ByteQueue

/-! ## The threads -/

/-- A call under way: about to take the lock, or waiting on its condition variable. -/
inductive QueueCall (α : Type) where
  | idle
  | ready (argument : α)
  | waiting (argument : α)
  deriving DecidableEq, Repr

def QueueCall.wake {α : Type} : QueueCall α → QueueCall α
  | waiting argument => ready argument
  | call => call

theorem QueueCall.wake_ne {α : Type} (c : QueueCall α) (a : α) : c.wake ≠ .waiting a := by
  cases c <;> exact nofun

/-- The queue with its producer, its consumer, and the notifications still to be made by calls
that have released the lock. -/
structure QueueSystem where
  queue : ByteQueue
  producer : QueueCall Chunk := .idle
  consumer : QueueCall (Option Nat) := .idle
  /-- Closing calls about to notify `not_empty`, and then `not_full`. -/
  announcing : Nat := 0
  /-- Calls about to notify `not_full`. -/
  releasing : Nat := 0
  deriving DecidableEq, Repr

inductive QueueEvent where
  | push (bytes : Chunk)
  | producerTurn
  | producerWakes
  | popUntil (deadline : Option Nat)
  | consumerTurn (now : Nat)
  | consumerWakes
  | finish
  | abort
  | complete
  | notifyNotEmpty
  | notifyNotFull
  | other
  deriving DecidableEq, Repr

inductive QueueOutput where
  | pushed (bytes : Chunk) (accepted : Bool)
  | read (result : QueueRead)
  deriving DecidableEq, Repr

def QueueOutput.accepted? : QueueOutput → Option Chunk
  | .pushed bytes true => some bytes
  | _ => none

def QueueOutput.popped? : QueueOutput → Option Chunk
  | .read (.bytes bytes) => some bytes
  | _ => none

namespace QueueSystem

def new (capacity : Nat) : QueueSystem := { queue := { capacity } }

variable (s : QueueSystem)

def producerTurn : Option (Option QueueOutput × QueueSystem) :=
  match s.producer with
  | .ready bytes =>
    match s.queue.push bytes with
    | .waits => some (none, { s with producer := .waiting bytes })
    | .returns accepted queue =>
      some (some (.pushed bytes accepted), { s with
        queue := queue
        producer := .idle
        consumer := if accepted then s.consumer.wake else s.consumer })
  | _ => none

def consumerTurn (now : Nat) : Option (Option QueueOutput × QueueSystem) :=
  match s.consumer with
  | .ready deadline =>
    match s.queue.popUntil deadline now with
    | .waits => some (none, { s with consumer := .waiting deadline })
    | .returns result queue =>
      some (some (.read result), { s with
        queue := queue
        consumer := .idle
        producer := match result with
          | .bytes _ => s.producer.wake
          | _ => s.producer })
  | _ => none

def step : QueueEvent → Option (Option QueueOutput × QueueSystem)
  | .push bytes =>
    if s.producer = .idle then some (none, { s with producer := .ready bytes }) else none
  | .producerTurn => s.producerTurn
  | .producerWakes => some (none, { s with producer := s.producer.wake })
  | .popUntil deadline =>
    if s.consumer = .idle then some (none, { s with consumer := .ready deadline }) else none
  | .consumerTurn now => s.consumerTurn now
  | .consumerWakes => some (none, { s with consumer := s.consumer.wake })
  | .finish => some (none, { s with queue := s.queue.finish, announcing := s.announcing + 1 })
  | .abort => some (none, { s with queue := s.queue.abort, announcing := s.announcing + 1 })
  | .complete => some (none, { s with queue := s.queue.complete, releasing := s.releasing + 1 })
  | .notifyNotEmpty =>
    if 0 < s.announcing then
      some (none, { s with
        announcing := s.announcing - 1
        releasing := s.releasing + 1
        consumer := s.consumer.wake })
    else none
  | .notifyNotFull =>
    if 0 < s.releasing then
      some (none, { s with releasing := s.releasing - 1, producer := s.producer.wake })
    else none
  | .other => some (none, s)

/-! ## The steps -/

section Steps

variable {s s' : QueueSystem} {out : Option QueueOutput}

/-- What a step may change, by who makes it. -/
inductive Stepped (s : QueueSystem) : QueueEvent → Option QueueOutput → QueueSystem → Prop where
  | push (bytes : Chunk) (idle : s.producer = .idle) :
      Stepped s (.push bytes) none { s with producer := .ready bytes }
  | full (bytes : Chunk) (turn : s.producer = .ready bytes) (opened : ¬s.queue.closed)
      (full : s.queue.chunks.length = s.queue.capacity) :
      Stepped s .producerTurn none { s with producer := .waiting bytes }
  | refused (bytes : Chunk) (turn : s.producer = .ready bytes) (closed : s.queue.closed) :
      Stepped s .producerTurn (some (.pushed bytes false)) { s with producer := .idle }
  | accepted (bytes : Chunk) (maximum : Nat) (turn : s.producer = .ready bytes)
      (opened : ¬s.queue.closed) (room : s.queue.chunks.length ≠ s.queue.capacity)
      (highest : maximum = max s.queue.maximumPending (s.queue.chunks.length + 1)) :
      Stepped s .producerTurn (some (.pushed bytes true))
        { s with
          queue := { s.queue with chunks := s.queue.chunks ++ [bytes], maximumPending := maximum }
          producer := .idle
          consumer := s.consumer.wake }
  | producerWakes : Stepped s .producerWakes none { s with producer := s.producer.wake }
  | popUntil (deadline : Option Nat) (idle : s.consumer = .idle) :
      Stepped s (.popUntil deadline) none { s with consumer := .ready deadline }
  | empty (now : Nat) (deadline : Option Nat) (turn : s.consumer = .ready deadline)
      (opened : ¬s.queue.closed) (empty : s.queue.chunks = []) :
      Stepped s (.consumerTurn now) none { s with consumer := .waiting deadline }
  | expired (now : Nat) (deadline : Option Nat) (turn : s.consumer = .ready deadline)
      (opened : ¬s.queue.closed) :
      Stepped s (.consumerTurn now) (some (.read .deadline)) { s with consumer := .idle }
  | told (now : Nat) (deadline : Option Nat) (turn : s.consumer = .ready deadline)
      (closed : s.queue.closed) (empty : s.queue.chunks = []) :
      Stepped s (.consumerTurn now) (some (.read .finished)) { s with consumer := .idle }
  | taken (now : Nat) (deadline : Option Nat) (bytes : Chunk) (rest : List Chunk) (inFlight : Nat)
      (turn : s.consumer = .ready deadline) (oldest : s.queue.chunks = bytes :: rest) :
      Stepped s (.consumerTurn now) (some (.read (.bytes bytes)))
        { s with
          queue := { s.queue with chunks := rest, inFlight := inFlight }
          consumer := .idle
          producer := s.producer.wake }
  | consumerWakes : Stepped s .consumerWakes none { s with consumer := s.consumer.wake }
  | finish : Stepped s .finish none
      { s with queue := s.queue.finish, announcing := s.announcing + 1 }
  | abort : Stepped s .abort none
      { s with queue := s.queue.abort, announcing := s.announcing + 1 }
  | complete : Stepped s .complete none
      { s with queue := s.queue.complete, releasing := s.releasing + 1 }
  | notifyNotEmpty (pending : 0 < s.announcing) : Stepped s .notifyNotEmpty none
      { s with
        announcing := s.announcing - 1
        releasing := s.releasing + 1
        consumer := s.consumer.wake }
  | notifyNotFull (pending : 0 < s.releasing) : Stepped s .notifyNotFull none
      { s with releasing := s.releasing - 1, producer := s.producer.wake }
  | other : Stepped s .other none s

theorem producerTurn_stepped (h : s.producerTurn = some (out, s')) :
    Stepped s .producerTurn out s' := by
  unfold producerTurn at h
  cases hp : s.producer with
  | idle | waiting => rw [hp] at h; cases h
  | ready bytes =>
    rw [hp] at h
    dsimp only at h
    rcases s.queue.push_cases bytes with ⟨hturn, hopen, hfull⟩ | ⟨hturn, hclosed⟩ |
      ⟨maximum, hturn, hopen, hroom, hmaximum⟩
    all_goals
      rw [hturn] at h
      obtain ⟨rfl, rfl⟩ := Prod.mk.inj (Option.some.inj h)
    · exact .full bytes hp hopen hfull
    · exact .refused bytes hp hclosed
    · exact .accepted bytes maximum hp hopen hroom hmaximum

theorem consumerTurn_stepped {now : Nat} (h : s.consumerTurn now = some (out, s')) :
    Stepped s (.consumerTurn now) out s' := by
  unfold consumerTurn at h
  cases hc : s.consumer with
  | idle | waiting => rw [hc] at h; cases h
  | ready deadline =>
    rw [hc] at h
    dsimp only at h
    rcases s.queue.popUntil_cases deadline now with ⟨hturn | hturn, hopen, hempty⟩ |
      ⟨hturn, hclosed, hempty⟩ | ⟨bytes, rest, inFlight, hchunks, hturn⟩
    all_goals
      rw [hturn] at h
      obtain ⟨rfl, rfl⟩ := Prod.mk.inj (Option.some.inj h)
    · exact .empty now deadline hc hopen hempty
    · exact .expired now deadline hc hopen
    · exact .told now deadline hc hclosed hempty
    · exact .taken now deadline bytes rest inFlight hc hchunks

theorem step_stepped {e : QueueEvent} (h : s.step e = some (out, s')) : Stepped s e out s' := by
  cases e with
  | producerTurn => exact producerTurn_stepped h
  | consumerTurn now => exact consumerTurn_stepped h
  | push | popUntil | notifyNotEmpty | notifyNotFull =>
    dsimp only [step] at h
    split at h
    · cases h
      constructor
      assumption
    · cases h
  | _ =>
    cases h
    constructor

end Steps

/-! ## Everything that happened -/

def acceptedChunks (outs : List QueueOutput) : List Chunk := outs.filterMap (·.accepted?)

def poppedChunks (outs : List QueueOutput) : List Chunk := outs.filterMap (·.popped?)

theorem acceptedChunks_snoc (outs : List QueueOutput) (o : QueueOutput) :
    acceptedChunks (outs ++ [o]) = acceptedChunks outs ++ o.accepted?.toList := by
  rw [acceptedChunks, List.filterMap_append]
  cases h : o.accepted? <;> simp [acceptedChunks, h]

theorem poppedChunks_snoc (outs : List QueueOutput) (o : QueueOutput) :
    poppedChunks (outs ++ [o]) = poppedChunks outs ++ o.popped?.toList := by
  rw [poppedChunks, List.filterMap_append]
  cases h : o.popped? <;> simp [poppedChunks, h]

/-- What happened under some interleaving, what the calls returned so far, and the system now. -/
inductive Reached (capacity : Nat) :
    List QueueEvent → List QueueOutput → QueueSystem → Prop where
  | start : Reached capacity [] [] (new capacity)
  | step {events : List QueueEvent} {outs : List QueueOutput} {s s' : QueueSystem}
      {e : QueueEvent} {out : Option QueueOutput} (h : Reached capacity events outs s)
      (hs : s.step e = some (out, s')) : Reached capacity (events ++ [e]) (outs ++ out.toList) s'

/-- What holds of the queue and of what went through it. -/
structure Conserves (capacity : Nat) (outs : List QueueOutput) (s : QueueSystem) : Prop where
  fixed : s.queue.capacity = capacity
  fifo : poppedChunks outs ++ s.queue.chunks = acceptedChunks outs
  bounded : s.queue.chunks.length ≤ capacity
  highest : s.queue.maximumPending ≤ capacity

variable {capacity : Nat} {outs : List QueueOutput} {s s' : QueueSystem} {e : QueueEvent}
  {out : Option QueueOutput} {events : List QueueEvent}

theorem Conserves.step (h : Conserves capacity outs s) (hs : Stepped s e out s') :
    Conserves capacity (outs ++ out.toList) s' := by
  have hfifo := h.fifo
  have hbounded := h.bounded
  cases hs with
  | refused | expired | told =>
    refine ⟨h.fixed, ?_, hbounded, h.highest⟩
    rw [Option.toList_some, acceptedChunks_snoc, poppedChunks_snoc]
    simpa [QueueOutput.accepted?, QueueOutput.popped?] using hfifo
  | accepted bytes maximum _ _ hroom hmaximum =>
    have hfixed := h.fixed
    have hhighest := h.highest
    refine ⟨h.fixed, ?_, ?_, ?_⟩
    · rw [Option.toList_some, acceptedChunks_snoc, poppedChunks_snoc, ← hfifo]
      simp [QueueOutput.accepted?, QueueOutput.popped?]
    · simp only [List.length_append, List.length_singleton]
      omega
    · dsimp only
      omega
  | taken _ _ bytes rest inFlight _ holdest =>
    rw [holdest] at hfifo hbounded
    refine ⟨h.fixed, ?_, Nat.le_of_succ_le hbounded, h.highest⟩
    rw [Option.toList_some, acceptedChunks_snoc, poppedChunks_snoc, ← hfifo]
    simp [QueueOutput.accepted?, QueueOutput.popped?]
  | _ =>
    rw [Option.toList_none, List.append_nil]
    exact ⟨h.fixed, hfifo, hbounded, h.highest⟩

theorem Reached.conserves (h : Reached capacity events outs s) : Conserves capacity outs s := by
  induction h with
  | start => exact ⟨rfl, rfl, Nat.zero_le _, Nat.zero_le _⟩
  | step _ hs ih => exact ih.step (step_stepped hs)

/-! ## Waiting -/

/-- Who waits has a reason: an open queue that is full, or empty; and once the queue is closed,
a notification on its way. -/
structure Watched (s : QueueSystem) : Prop where
  full : ∀ bytes, s.producer = .waiting bytes → ¬s.queue.closed →
    s.queue.chunks.length = s.queue.capacity
  empty : ∀ deadline, s.consumer = .waiting deadline → ¬s.queue.closed → s.queue.chunks = []
  producer : ∀ bytes, s.producer = .waiting bytes → s.queue.closed →
    0 < s.announcing + s.releasing
  consumer : ∀ deadline, s.consumer = .waiting deadline → s.queue.closed → 0 < s.announcing

theorem Watched.step (h : Watched s) (hs : Stepped s e out s') : Watched s' := by
  cases hs with
  | push | refused => exact ⟨nofun, h.empty, nofun, h.consumer⟩
  | full bytes turn opened full =>
    exact ⟨fun _ _ _ => full, h.empty, fun _ _ hclosed => absurd hclosed opened, h.consumer⟩
  | accepted bytes maximum turn opened room =>
    exact ⟨nofun, fun d hd => absurd hd (s.consumer.wake_ne d), nofun,
      fun d hd => absurd hd (s.consumer.wake_ne d)⟩
  | producerWakes | notifyNotFull =>
    exact ⟨fun b hb => absurd hb (s.producer.wake_ne b), h.empty,
      fun b hb => absurd hb (s.producer.wake_ne b), h.consumer⟩
  | empty now deadline turn opened empty =>
    exact ⟨h.full, fun _ _ _ => empty, h.producer, fun _ _ hclosed => absurd hclosed opened⟩
  | popUntil | expired | told => exact ⟨h.full, nofun, h.producer, nofun⟩
  | taken now deadline bytes rest inFlight turn oldest =>
    exact ⟨fun b hb => absurd hb (s.producer.wake_ne b), nofun,
      fun b hb => absurd hb (s.producer.wake_ne b), nofun⟩
  | consumerWakes =>
    exact ⟨h.full, fun d hd => absurd hd (s.consumer.wake_ne d), h.producer,
      fun d hd => absurd hd (s.consumer.wake_ne d)⟩
  | finish =>
    have hclosed : s.queue.finish.closed := .inl rfl
    exact ⟨fun _ _ ho => absurd hclosed ho, fun _ _ ho => absurd hclosed ho,
      fun _ _ _ => Nat.add_pos_left (Nat.succ_pos _) _, fun _ _ _ => Nat.succ_pos _⟩
  | abort =>
    have hclosed : s.queue.abort.closed := .inr rfl
    exact ⟨fun _ _ ho => absurd hclosed ho, fun _ _ ho => absurd hclosed ho,
      fun _ _ _ => Nat.add_pos_left (Nat.succ_pos _) _, fun _ _ _ => Nat.succ_pos _⟩
  | complete =>
    exact ⟨h.full, h.empty, fun _ _ _ => Nat.add_pos_right _ (Nat.succ_pos _), h.consumer⟩
  | notifyNotEmpty pending =>
    exact ⟨h.full, fun d hd => absurd hd (s.consumer.wake_ne d),
      fun _ _ _ => Nat.add_pos_right _ (Nat.succ_pos _),
      fun d hd => absurd hd (s.consumer.wake_ne d)⟩
  | other => exact h

theorem Reached.watched (h : Reached capacity events outs s) : Watched s := by
  induction h with
  | start => exact ⟨nofun, nofun, nofun, nofun⟩
  | step _ hs ih => exact ih.step (step_stepped hs)

theorem Stepped.closed (hs : Stepped s e out s') :
    s'.queue.closed ↔ s.queue.closed ∨ e = .finish ∨ e = .abort := by
  cases hs with
  | finish => exact ⟨fun _ => .inr (.inl rfl), fun _ => .inl rfl⟩
  | abort => exact ⟨fun _ => .inr (.inr rfl), fun _ => .inr rfl⟩
  | _ => exact ⟨.inl, fun h => h.resolve_right nofun⟩

theorem Reached.closed (h : Reached capacity events outs s) :
    s.queue.closed ↔ .finish ∈ events ∨ .abort ∈ events := by
  induction h with
  | start => simp [new, ByteQueue.closed]
  | step _ hs ih =>
    rw [(step_stepped hs).closed, ih]
    simp only [List.mem_append, List.mem_singleton, eq_comm]
    tauto

section Awake

variable {s s' : QueueSystem} {e : QueueEvent} {out : Option QueueOutput} {bytes : Chunk}
  {deadline : Option Nat}

theorem Stepped.producer_ready (hs : Stepped s e out s') (hclosed : s.queue.closed)
    (h : s.producer = .ready bytes) :
    s'.producer = .idle ∨ s'.producer = .ready bytes ∧ e ≠ .producerTurn := by
  have hwake : s.producer.wake = .ready bytes := by rw [h]; rfl
  cases hs with
  | push _ idle => rw [h] at idle; cases idle
  | full _ _ opened | accepted _ _ _ opened => exact absurd hclosed opened
  | refused => exact .inl rfl
  | producerWakes | taken | notifyNotFull => exact .inr ⟨hwake, nofun⟩
  | _ => exact .inr ⟨h, nofun⟩

theorem Stepped.consumer_ready (hs : Stepped s e out s') (hclosed : s.queue.closed)
    (h : s.consumer = .ready deadline) :
    s'.consumer = .idle ∨ s'.consumer = .ready deadline ∧ ¬∃ now, e = .consumerTurn now := by
  have hwake : s.consumer.wake = .ready deadline := by rw [h]; rfl
  cases hs with
  | popUntil _ idle => rw [h] at idle; cases idle
  | empty _ _ _ opened => exact absurd hclosed opened
  | expired | told | taken => exact .inl rfl
  | accepted | consumerWakes | notifyNotEmpty => exact .inr ⟨hwake, nofun⟩
  | _ => exact .inr ⟨h, nofun⟩

theorem Stepped.producer_waiting (hs : Stepped s e out s') (h : s.producer = .waiting bytes) :
    s'.producer = .ready bytes ∨ s'.producer = .waiting bytes ∧ e ≠ .notifyNotFull := by
  have hwake : s.producer.wake = .ready bytes := by rw [h]; rfl
  cases hs with
  | push _ idle => rw [h] at idle; cases idle
  | full _ turn | refused _ turn | accepted _ _ turn => rw [h] at turn; cases turn
  | producerWakes | taken | notifyNotFull => exact .inl hwake
  | _ => exact .inr ⟨h, nofun⟩

theorem Stepped.consumer_waiting (hs : Stepped s e out s') (h : s.consumer = .waiting deadline) :
    s'.consumer = .ready deadline ∨ s'.consumer = .waiting deadline ∧ e ≠ .notifyNotEmpty := by
  have hwake : s.consumer.wake = .ready deadline := by rw [h]; rfl
  cases hs with
  | popUntil _ idle => rw [h] at idle; cases idle
  | empty _ _ turn | expired _ _ turn | told _ _ turn | taken _ _ _ _ _ turn =>
    rw [h] at turn
    cases turn
  | accepted | consumerWakes | notifyNotEmpty => exact .inl hwake
  | _ => exact .inr ⟨h, nofun⟩

/-- A closing call still to notify `not_empty` stays so, or is then still to notify `not_full`. -/
theorem Stepped.announcing (hs : Stepped s e out s') (h : 0 < s.announcing) :
    0 < s'.releasing ∨ 0 < s'.announcing ∧ e ≠ .notifyNotEmpty := by
  cases hs with
  | notifyNotEmpty => exact .inl (Nat.succ_pos _)
  | finish | abort => exact .inr ⟨Nat.succ_pos _, nofun⟩
  | _ => exact .inr ⟨h, nofun⟩

theorem Stepped.releasing (hs : Stepped s e out s') (h : 0 < s.releasing) :
    0 < s'.releasing ∨ e = .notifyNotFull := by
  cases hs with
  | notifyNotFull => exact .inr rfl
  | complete | notifyNotEmpty => exact .inl (Nat.succ_pos _)
  | _ => exact .inl h

end Awake

/-! ## Endless runs -/

def Step (s : QueueSystem) (e : QueueEvent) (s' : QueueSystem) : Prop :=
  ∃ out, s.step e = some (out, s')

/-- Every thread that can go on does so sooner or later: a call that goes for the lock gets its
turn, and a call that has released it makes its notifications. -/
structure Fair (ρ : Schedule Step) : Prop where
  announce : ∀ n, 0 < (ρ.state n).announcing → ∃ m, n ≤ m ∧ ρ.event m = .notifyNotEmpty
  release : ∀ n, 0 < (ρ.state n).releasing → ∃ m, n ≤ m ∧ ρ.event m = .notifyNotFull
  producer : ∀ n bytes, (ρ.state n).producer = .ready bytes →
    ∃ m, n ≤ m ∧ ρ.event m = .producerTurn
  consumer : ∀ n deadline, (ρ.state n).consumer = .ready deadline →
    ∃ m, n ≤ m ∧ ∃ now, ρ.event m = .consumerTurn now

section Progress

variable {ρ : Schedule Step} {n : ℕ} {bytes : Chunk} {deadline : Option Nat}

theorem closed_always (ρ : Schedule Step) {m : ℕ} (hnm : n ≤ m)
    (h : (ρ.state n).queue.closed) : (ρ.state m).queue.closed :=
  ρ.always (P := fun s => s.queue.closed)
    (fun _ _ _ ⟨_, hs⟩ hc => (step_stepped hs).closed.2 (.inl hc)) hnm h

theorem Fair.producer_ready (hfair : Fair ρ) (hclosed : (ρ.state n).queue.closed)
    (h : (ρ.state n).producer = .ready bytes) : ∃ m, n ≤ m ∧ (ρ.state m).producer = .idle := by
  refine ρ.leadsTo (P := fun s => s.queue.closed ∧ s.producer = .ready bytes)
    (Q := fun s => s.producer = .idle) (H := (· = .producerTurn)) (fun s e s' hs hp => ?_)
    (fun n hn => hfair.producer n bytes hn.2) ⟨hclosed, h⟩
  obtain ⟨out, hs⟩ := hs
  have hstep := step_stepped hs
  exact (hstep.producer_ready hp.1 hp.2).imp_right fun ⟨hready, hother⟩ =>
    ⟨⟨hstep.closed.2 (.inl hp.1), hready⟩, hother⟩

theorem Fair.consumer_ready (hfair : Fair ρ) (hclosed : (ρ.state n).queue.closed)
    (h : (ρ.state n).consumer = .ready deadline) :
    ∃ m, n ≤ m ∧ (ρ.state m).consumer = .idle := by
  refine ρ.leadsTo (P := fun s => s.queue.closed ∧ s.consumer = .ready deadline)
    (Q := fun s => s.consumer = .idle) (H := fun e => ∃ now, e = .consumerTurn now)
    (fun s e s' hs hp => ?_) (fun n hn => hfair.consumer n deadline hn.2) ⟨hclosed, h⟩
  obtain ⟨out, hs⟩ := hs
  have hstep := step_stepped hs
  exact (hstep.consumer_ready hp.1 hp.2).imp_right fun ⟨hready, hother⟩ =>
    ⟨⟨hstep.closed.2 (.inl hp.1), hready⟩, hother⟩

theorem Fair.producer_released (hfair : Fair ρ) (hreleasing : 0 < (ρ.state n).releasing)
    (h : (ρ.state n).producer = .waiting bytes) :
    ∃ m, n ≤ m ∧ (ρ.state m).producer = .ready bytes := by
  refine ρ.leadsTo (P := fun s => 0 < s.releasing ∧ s.producer = .waiting bytes)
    (Q := fun s => s.producer = .ready bytes) (H := (· = .notifyNotFull))
    (fun s e s' hs hp => ?_) (fun n hn => hfair.release n hn.1) ⟨hreleasing, h⟩
  obtain ⟨out, hs⟩ := hs
  have hstep := step_stepped hs
  exact (hstep.producer_waiting hp.2).imp_right fun ⟨hwaiting, hother⟩ =>
    ⟨⟨(hstep.releasing hp.1).resolve_right hother, hwaiting⟩, hother⟩

theorem Fair.producer_announced (hfair : Fair ρ) (hannouncing : 0 < (ρ.state n).announcing)
    (h : (ρ.state n).producer = .waiting bytes) :
    ∃ m, n ≤ m ∧ (ρ.state m).producer = .ready bytes := by
  obtain ⟨m, hnm, hready | ⟨hwaiting, hpending⟩⟩ : ∃ m, n ≤ m ∧
      ((ρ.state m).producer = .ready bytes ∨
        (ρ.state m).producer = .waiting bytes ∧ 0 < (ρ.state m).releasing) := by
    refine ρ.leadsTo (P := fun s => 0 < s.announcing ∧ s.producer = .waiting bytes)
      (Q := fun s => s.producer = .ready bytes ∨ s.producer = .waiting bytes ∧ 0 < s.releasing)
      (H := (· = .notifyNotEmpty)) (fun s e s' hs hp => ?_)
      (fun n hn => hfair.announce n hn.1) ⟨hannouncing, h⟩
    obtain ⟨out, hs⟩ := hs
    have hstep := step_stepped hs
    rcases hstep.producer_waiting hp.2 with hready | ⟨hwaiting, -⟩
    · exact .inl (.inl hready)
    · exact (hstep.announcing hp.1).imp (fun hr => .inr ⟨hwaiting, hr⟩)
        fun ⟨ha, hother⟩ => ⟨⟨ha, hwaiting⟩, hother⟩
  · exact ⟨m, hnm, hready⟩
  · obtain ⟨k, hmk, hready⟩ := hfair.producer_released hpending hwaiting
    exact ⟨k, hnm.trans hmk, hready⟩

theorem Fair.consumer_announced (hfair : Fair ρ) (hclosed : (ρ.state n).queue.closed)
    (hwatched : Watched (ρ.state n)) (h : (ρ.state n).consumer = .waiting deadline) :
    ∃ m, n ≤ m ∧ (ρ.state m).consumer = .ready deadline := by
  refine ρ.leadsTo
    (P := fun s => (s.queue.closed ∧ Watched s) ∧ s.consumer = .waiting deadline)
    (Q := fun s => s.consumer = .ready deadline) (H := (· = .notifyNotEmpty))
    (fun s e s' hs hp => ?_)
    (fun n hn => hfair.announce n (hn.1.2.consumer deadline hn.2 hn.1.1)) ⟨⟨hclosed, hwatched⟩, h⟩
  obtain ⟨out, hs⟩ := hs
  have hstep := step_stepped hs
  exact (hstep.consumer_waiting hp.2).imp_right fun ⟨hwaiting, hother⟩ =>
    ⟨⟨⟨hstep.closed.2 (.inl hp.1.1), hp.1.2.step hstep⟩, hwaiting⟩, hother⟩

theorem Fair.producer_returns (hfair : Fair ρ) (hclosed : (ρ.state n).queue.closed)
    (hwatched : Watched (ρ.state n)) : ∃ m, n ≤ m ∧ (ρ.state m).producer = .idle := by
  cases hp : (ρ.state n).producer with
  | idle => exact ⟨n, le_rfl, hp⟩
  | ready bytes => exact hfair.producer_ready hclosed hp
  | waiting bytes =>
    obtain ⟨m, hnm, hready⟩ : ∃ m, n ≤ m ∧ (ρ.state m).producer = .ready bytes := by
      rcases Nat.eq_zero_or_pos (ρ.state n).releasing with hnone | hsome
      · have hpending := hwatched.producer bytes hp hclosed
        exact hfair.producer_announced (by omega) hp
      · exact hfair.producer_released hsome hp
    obtain ⟨k, hmk, hidle⟩ := hfair.producer_ready (closed_always ρ hnm hclosed) hready
    exact ⟨k, hnm.trans hmk, hidle⟩

theorem Fair.consumer_returns (hfair : Fair ρ) (hclosed : (ρ.state n).queue.closed)
    (hwatched : Watched (ρ.state n)) : ∃ m, n ≤ m ∧ (ρ.state m).consumer = .idle := by
  cases hc : (ρ.state n).consumer with
  | idle => exact ⟨n, le_rfl, hc⟩
  | ready deadline => exact hfair.consumer_ready hclosed hc
  | waiting deadline =>
    obtain ⟨m, hnm, hready⟩ := hfair.consumer_announced hclosed hwatched hc
    obtain ⟨k, hmk, hidle⟩ := hfair.consumer_ready (closed_always ρ hnm hclosed) hready
    exact ⟨k, hnm.trans hmk, hidle⟩

end Progress

theorem Stepped.pushed_closed {bytes : Chunk} {accepted : Bool}
    (hs : Stepped s e (some (.pushed bytes accepted)) s') (hclosed : s.queue.closed) :
    accepted = false := by
  cases hs with
  | refused => rfl
  | accepted _ _ _ opened => exact absurd hclosed opened

theorem Stepped.read_finished (hs : Stepped s e (some (.read .finished)) s') :
    s.queue.closed ∧ s.queue.chunks = [] := by
  cases hs with
  | told _ _ _ closed empty => exact ⟨closed, empty⟩

/-- Under every interleaving of one producer, one consumer, `finish` and `abort`: what was popped
and what is retained are the accepted chunks in order; the queue keeps to its capacity; after
`finish` or `abort` no push succeeds; the consumer is told of the end only after one of them, with
every accepted chunk popped; and from then on, whenever the threads are scheduled fairly, every
call of either side returns. -/
theorem byte_queue_protocol {capacity : Nat} {events : List QueueEvent} {outs : List QueueOutput}
    {s : QueueSystem} (h : Reached capacity events outs s) :
    poppedChunks outs ++ s.queue.chunks = acceptedChunks outs ∧
    s.queue.chunks.length ≤ capacity ∧
    (∀ e out s', s.step e = some (out, s') →
      (.finish ∈ events ∨ .abort ∈ events → ∀ bytes, out ≠ some (.pushed bytes true)) ∧
      (out = some (.read .finished) →
        (.finish ∈ events ∨ .abort ∈ events) ∧ poppedChunks outs = acceptedChunks outs)) ∧
    ∀ ρ : Schedule Step, ρ.state 0 = s → Fair ρ → ∀ n, (ρ.state n).queue.closed →
      (∃ m, n ≤ m ∧ (ρ.state m).producer = .idle) ∧
      ∃ m, n ≤ m ∧ (ρ.state m).consumer = .idle := by
  have hfifo := h.conserves.fifo
  refine ⟨hfifo, h.conserves.bounded, fun e out s' hs => ⟨?_, ?_⟩, ?_⟩
  · rintro hclosing bytes rfl
    exact absurd ((step_stepped hs).pushed_closed (h.closed.2 hclosing)) nofun
  · rintro rfl
    obtain ⟨hclosed, hempty⟩ := (step_stepped hs).read_finished
    rw [hempty, List.append_nil] at hfifo
    exact ⟨h.closed.1 hclosed, hfifo⟩
  · intro ρ hstart hfair n hclosed
    have hwatched : Watched (ρ.state n) :=
      ρ.always (fun _ _ _ ⟨_, hs⟩ hw => hw.step (step_stepped hs)) n.zero_le (hstart ▸ h.watched)
    exact ⟨hfair.producer_returns hclosed hwatched, hfair.consumer_returns hclosed hwatched⟩

def fullQueue : QueueSystem where
  queue := { capacity := 1, chunks := [[1]], maximumPending := 1 }
  producer := .waiting [2]

/-- The queue is finished, which wakes the producer, and then nothing happens any more. -/
def closingRun : Schedule Step where
  state
    | 0 => fullQueue
    | 1 => { fullQueue with queue := fullQueue.queue.finish, announcing := 1 }
    | 2 => { fullQueue with queue := fullQueue.queue.finish, releasing := 1 }
    | 3 => { fullQueue with queue := fullQueue.queue.finish, producer := .ready [2] }
    | _ => { fullQueue with queue := fullQueue.queue.finish, producer := .idle }
  event
    | 0 => .finish
    | 1 => .notifyNotEmpty
    | 2 => .notifyNotFull
    | 3 => .producerTurn
    | _ => .other
  next
    | 0 | 1 | 2 | 3 => ⟨_, rfl⟩
    | _ + 4 => ⟨_, rfl⟩

theorem closingRun_fair : Fair closingRun where
  announce
    | 0, h | 2, h | 3, h | _ + 4, h => absurd h (Nat.lt_irrefl 0)
    | 1, _ => ⟨1, le_rfl, rfl⟩
  release
    | 0, h | 1, h | 3, h | _ + 4, h => absurd h (Nat.lt_irrefl 0)
    | 2, _ => ⟨2, le_rfl, rfl⟩
  producer
    | 0, _, h | 1, _, h | 2, _, h | _ + 4, _, h => nomatch h
    | 3, _, _ => ⟨3, le_rfl, rfl⟩
  consumer
    | 0, _, h | 1, _, h | 2, _, h | 3, _, h | _ + 4, _, h => nomatch h

theorem byte_queue_protocol_finish :
    poppedChunks [.pushed [1] true] ++ fullQueue.queue.chunks = [[1]] ∧
      ∃ m, 1 ≤ m ∧ (closingRun.state m).producer = .idle := by
  have hreached : Reached 1 [.push [1], .producerTurn, .push [2], .producerTurn]
      [.pushed [1] true] fullQueue := by
    have hpush := (Reached.start : Reached 1 [] [] (new 1)).step (e := .push [1]) rfl
    have haccepted := hpush.step (e := .producerTurn) rfl
    exact (haccepted.step (e := .push [2]) rfl).step (e := .producerTurn) rfl
  obtain ⟨hfifo, -, -, hlive⟩ := byte_queue_protocol hreached
  exact ⟨hfifo, (hlive closingRun rfl closingRun_fair 1 (.inl rfl)).1⟩

end QueueSystem

end Voytty.Daemon
