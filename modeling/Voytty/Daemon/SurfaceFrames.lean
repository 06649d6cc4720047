import Voytty.Core.Domain
import Voytty.Lib.Numbered

/-!
# Receipts for live surface frames

A controller that asked for it reports the surface frames it decoded, and the
host's writer holds optional updates back while too much is on the way
(`daemon/src/session_wire.rs`, `client/src/session.rs`). `Flow` is one attachment
stream: the writer task, the reader task that validates receipts, the client, and
what is on the wire both ways.
-/

namespace Voytty.Daemon

open Voytty.Lib

/-! ## The host -/

def maxUnreceivedSurfaceFrames : Nat := 4

def maxUnreceivedSurfaceBytes : Nat := 32 * 1024

/-- What reader and writer share: the receipt watch, with the value the writer saw last, and the
highest sequence written. -/
structure SurfaceFrameReceipts where
  received : Nat
  seen : Nat
  highestSent : Nat
  deriving DecidableEq, Repr

def SurfaceFrameReceipts.accept (r : SurfaceFrameReceipts) (frameSequence : Nat) :
    Except DaemonError SurfaceFrameReceipts :=
  if frameSequence = 0 ∨ frameSequence < r.received ∨ frameSequence > r.highestSent then
    .error ⟨.malformedFrame, "terminal surface frame receipt is outside the written range"⟩
  else if frameSequence > r.received then .ok { r with received := frameSequence }
  else .ok r

/-- The writer's bound; no receipts unless negotiated. -/
structure SurfaceFrameWindow where
  receipts : Option SurfaceFrameReceipts
  inFlight : List (Nat × Nat)
  inFlightBytes : Nat
  deriving DecidableEq, Repr

/-- Drops received frames from the front; `none` when the byte counter would underflow. -/
def releaseReceived (received : Nat) : List (Nat × Nat) → Nat → Option (List (Nat × Nat) × Nat)
  | [], total => some ([], total)
  | (sequence, bytes) :: frames, total =>
    if sequence > received then some ((sequence, bytes) :: frames, total)
    else if total < bytes then none
    else releaseReceived received frames (total - bytes)

namespace SurfaceFrameWindow

variable (w : SurfaceFrameWindow)

def negotiated : SurfaceFrameWindow := ⟨some ⟨0, 0, 0⟩, [], 0⟩

def nextSequence : Nat := (w.receipts.map (·.highestSent + 1)).getD 0

def record (frameSequence bytes : Nat) : SurfaceFrameWindow :=
  match w.receipts with
  | none => w
  | some receipts =>
    { receipts := some { receipts with highestSent := frameSequence }
      inFlight := w.inFlight ++ [(frameSequence, bytes)]
      inFlightBytes := w.inFlightBytes + bytes }

/-- Nothing in flight, or little enough. -/
def admits : Bool :=
  w.inFlight.isEmpty ||
    (w.inFlight.length < maxUnreceivedSurfaceFrames && w.inFlightBytes < maxUnreceivedSurfaceBytes)

/-- Whether one more optional update may be written now. -/
def hasRoom : Option (Bool × SurfaceFrameWindow) :=
  match w.receipts with
  | none => some (true, w)
  | some receipts =>
    (releaseReceived receipts.received w.inFlight w.inFlightBytes).map fun (inFlight, total) =>
      let w := ⟨some { receipts with seen := receipts.received }, inFlight, total⟩
      (w.admits, w)

end SurfaceFrameWindow

/-! ## The client -/

/-- Frames decoded on this stream, and how many of them were reported. -/
structure SurfaceFrameCounter where
  received : Nat
  reported : Nat
  deriving DecidableEq, Repr

namespace SurfaceFrameCounter

variable (c : SurfaceFrameCounter)

def observeSurfaceFrame (frameSequence : Nat) : Except DaemonError SurfaceFrameCounter :=
  if frameSequence = 0 then .ok c
  else if frameSequence ≠ c.received + 1 then
    .error ⟨.malformedFrame, "terminal surface frame sequence is not consecutive"⟩
  else .ok { c with received := frameSequence }

def reportSurfaceFrames : Option Nat × SurfaceFrameCounter :=
  if c.received ≤ c.reported then (none, c)
  else (some c.received, { c with reported := c.received })

end SurfaceFrameCounter

/-! ## The stream -/

/-- The writer: at the top of its loop, waiting with the room it found, or with a frame accounted
for and not yet written. -/
inductive WriterAt where
  | top
  | selecting (room : Bool)
  | writing (frameSequence : Nat)
  deriving DecidableEq, Repr

def WriterAt.pending : WriterAt → List Nat
  | .writing frameSequence => [frameSequence]
  | _ => []

structure Flow where
  window : SurfaceFrameWindow
  writer : WriterAt
  /-- Every frame accounted for so far, with its encoded bytes. -/
  recorded : List (Nat × Nat)
  wire : List Nat
  client : SurfaceFrameCounter
  receipts : List Nat
  deriving DecidableEq, Repr

inductive FlowEvent where
  | check
  | update (bytes : Nat)
  /-- an update of a takeover, a lifecycle change or the session's end, never withheld -/
  | required (bytes : Nat)
  | turn
  | flush
  | observe
  | report
  | accept
  deriving DecidableEq, Repr

namespace Flow

variable (s : Flow)

def start : Flow := ⟨.negotiated, .top, [], [], ⟨0, 0⟩, []⟩

def recordNext (bytes : Nat) : Flow :=
  let sequence := s.window.nextSequence
  { s with
    window := s.window.record sequence bytes
    writer := .writing sequence
    recorded := s.recorded ++ [(sequence, bytes)] }

/-- One step of one of the tasks; `none` when it is not that task's turn. -/
def step : FlowEvent → Option Flow
  | .check =>
    if s.writer = .top then
      s.window.hasRoom.map fun (room, window) => { s with window, writer := .selecting room }
    else none
  | .update bytes => if s.writer = .selecting true then some (s.recordNext bytes) else none
  | .required bytes =>
    match s.writer with
    | .writing _ => none
    | _ => some (s.recordNext bytes)
  | .turn =>
    match s.writer with
    | .selecting _ => some { s with writer := .top }
    | _ => none
  | .flush =>
    match s.writer with
    | .writing sequence => some { s with writer := .top, wire := s.wire ++ [sequence] }
    | _ => none
  | .observe =>
    match s.wire with
    | [] => none
    | sequence :: wire =>
      (s.client.observeSurfaceFrame sequence).toOption.map fun client => { s with client, wire }
  | .report =>
    let (receipt, client) := s.client.reportSurfaceFrames
    some { s with client, receipts := s.receipts ++ receipt.toList }
  | .accept =>
    match s.receipts, s.window.receipts with
    | receipt :: receipts, some shared =>
      (shared.accept receipt).toOption.map fun shared =>
        { s with window := { s.window with receipts := some shared }, receipts }
    | _, _ => none

def run : List FlowEvent → Flow → Option Flow
  | [], s => some s
  | event :: events, s => (s.step event).bind (run events)

theorem run_append (events events' : List FlowEvent) (s : Flow) :
    run (events ++ events') s = (run events s).bind (run events') := by
  induction events generalizing s with
  | nil => rfl
  | cons event events ih => simp only [List.cons_append, run, ih, Option.bind_assoc]

/-- The states of a stream. -/
def Reachable (s : Flow) : Prop := ∃ events, run events start = some s

end Flow

/-! ## Release -/

/-- Releasing drops what was received and keeps the byte counter exact. -/
theorem releaseReceived_eq (received : Nat) {k : Nat} {frames : List (Nat × Nat)}
    (h : Numbered Prod.fst k frames) :
    releaseReceived received frames (frames.map Prod.snd).sum =
      some (frames.drop (received - k), ((frames.drop (received - k)).map Prod.snd).sum) := by
  induction frames generalizing k with
  | nil => simp [releaseReceived]
  | cons frame frames ih =>
    obtain ⟨sequence, bytes⟩ := frame
    obtain rfl : sequence = k + 1 := h.1
    unfold releaseReceived
    split
    · rename_i hnew
      rw [Nat.sub_eq_zero_of_le (by omega), List.drop_zero]
    · rename_i hold
      rw [List.map_cons, List.sum_cons, if_neg (by omega), Nat.add_sub_cancel_left, ih h.2,
        show received - k = (received - (k + 1)) + 1 by omega, List.drop_succ_cons]

/-! ## The invariant -/

/-- Both sides' counters, the queue and the wire agree. -/
structure Flow.Linked (s : Flow) (r : SurfaceFrameReceipts) : Prop where
  shared : s.window.receipts = some r
  numbered : Numbered Prod.fst 0 s.recorded
  count : s.recorded.length = r.highestSent
  seen : r.seen ≤ r.received
  queue : s.window.inFlight = s.recorded.drop r.seen
  bytes : s.window.inFlightBytes = (s.window.inFlight.map Prod.snd).sum
  wire : Numbered id s.client.received (s.wire ++ s.writer.pending)
  sent : s.client.received + (s.wire ++ s.writer.pending).length = r.highestSent
  reported : s.client.reported ≤ s.client.received
  receipts : (r.received :: s.receipts).Pairwise (· < ·)
  last : (r.received :: s.receipts).getLast? = some s.client.reported
  room : ∀ room, s.writer = .selecting room → room = s.window.admits

namespace Flow

variable {s s' : Flow} {r : SurfaceFrameReceipts}

def released (s : Flow) (r : SurfaceFrameReceipts) : SurfaceFrameWindow where
  receipts := some { r with seen := r.received }
  inFlight := s.recorded.drop r.received
  inFlightBytes := ((s.recorded.drop r.received).map Prod.snd).sum

theorem linked_start : Linked start ⟨0, 0, 0⟩ :=
  ⟨rfl, trivial, rfl, le_rfl, rfl, rfl, trivial, rfl, le_rfl, List.pairwise_singleton _ _, rfl,
    fun _ h => by cases h⟩

namespace Linked

theorem le_reported (h : Linked s r) :
    ∀ receipt ∈ r.received :: s.receipts, receipt ≤ s.client.reported := by
  intro receipt hreceipt
  have hne : r.received :: s.receipts ≠ [] := by simp
  have hlast : (r.received :: s.receipts).getLast hne = s.client.reported := by
    rw [← Option.some.injEq, ← List.getLast?_eq_some_getLast hne, h.last]
  rw [← List.dropLast_append_getLast hne, List.mem_append, List.mem_singleton, hlast] at hreceipt
  rcases hreceipt with hreceipt | rfl
  · have hpairs := h.receipts
    rw [← List.dropLast_append_getLast hne, List.pairwise_append] at hpairs
    exact (hlast ▸ hpairs.2.2 receipt hreceipt _ (List.mem_singleton_self _)).le
  · exact le_rfl

theorem received_le (h : Linked s r) : r.received ≤ r.highestSent := by
  have hle := h.le_reported _ (List.mem_cons_self ..)
  have hreported := h.reported
  have hsent := h.sent
  omega

theorem hasRoom (h : Linked s r) :
    s.window.hasRoom = some ((s.released r).admits, s.released r) := by
  have hle := h.received_le
  have hseen := h.seen
  have hrelease := releaseReceived_eq r.received (h.numbered.drop (n := r.seen)
    (by rw [h.count]; omega))
  rw [List.drop_drop, show r.seen + (r.received - (0 + r.seen)) = r.received by omega] at hrelease
  simp only [SurfaceFrameWindow.hasRoom, h.shared, h.bytes, h.queue, hrelease, Option.map_some]
  rfl

theorem recordNext (h : Linked s r) (hw : s.writer.pending = []) (bytes : Nat) :
    Linked (s.recordNext bytes) { r with highestSent := r.highestSent + 1 } := by
  have hnext : s.window.nextSequence = r.highestSent + 1 := by
    simp [SurfaceFrameWindow.nextSequence, h.shared]
  have hreceived := h.received_le
  have hseen := h.seen
  have hsent := h.sent
  have hwire := h.wire
  rw [hw, List.append_nil] at hsent hwire
  refine ⟨?_, ?_, ?_, h.seen, ?_, ?_, ?_, ?_, h.reported, h.receipts, h.last, ?_⟩
  · simp [Flow.recordNext, SurfaceFrameWindow.record, h.shared, hnext]
  · exact h.numbered.concat (by rw [hnext, h.count]; simp)
  · simp [Flow.recordNext, h.count]
  · simp only [Flow.recordNext, SurfaceFrameWindow.record, h.shared, h.queue]
    rw [List.drop_append_of_le_length (by rw [h.count]; omega)]
  · simp only [Flow.recordNext, SurfaceFrameWindow.record, h.shared, h.bytes]
    simp
  · exact hwire.append ⟨by rw [id, hnext]; omega, trivial⟩
  · simp only [Flow.recordNext, WriterAt.pending, List.length_append, List.length_singleton]
    omega
  · intro room hroom
    cases hroom

theorem check (h : Linked s r) (hw : s.writer = .top) :
    Linked { s with window := s.released r, writer := .selecting (s.released r).admits }
      { r with seen := r.received } := by
  have hwire := h.wire
  have hsent := h.sent
  rw [hw] at hwire hsent
  exact ⟨rfl, h.numbered, h.count, le_rfl, rfl, rfl, hwire, hsent, h.reported, h.receipts, h.last,
    fun _ hroom => (WriterAt.selecting.inj hroom).symm⟩

theorem move (h : Linked s r) {wire : List Nat}
    (hw : wire = s.wire ++ s.writer.pending) :
    Linked { s with writer := .top, wire } r := by
  have hnil : wire ++ WriterAt.top.pending = s.wire ++ s.writer.pending := by
    rw [hw]
    exact List.append_nil _
  exact ⟨h.shared, h.numbered, h.count, h.seen, h.queue, h.bytes, hnil ▸ h.wire, hnil ▸ h.sent,
    h.reported, h.receipts, h.last, fun _ hroom => by cases hroom⟩

theorem observe (h : Linked s r) {sequence : Nat} {wire : List Nat}
    (hw : s.wire = sequence :: wire) :
    s.client.observeSurfaceFrame sequence = .ok { s.client with received := sequence } ∧
      Linked { s with client := { s.client with received := sequence }, wire } r := by
  have hwire := h.wire
  have hsent := h.sent
  rw [hw] at hwire hsent
  obtain rfl : sequence = s.client.received + 1 := hwire.1
  refine ⟨by simp [SurfaceFrameCounter.observeSurfaceFrame], h.shared, h.numbered, h.count, h.seen,
    h.queue, h.bytes, hwire.2, ?_, h.reported.trans (Nat.le_succ _), h.receipts, h.last, h.room⟩
  simp only [List.cons_append, List.length_cons] at hsent ⊢
  omega

theorem report (h : Linked s r) :
    Linked { s with
      client := s.client.reportSurfaceFrames.2
      receipts := s.receipts ++ s.client.reportSurfaceFrames.1.toList } r := by
  unfold SurfaceFrameCounter.reportSurfaceFrames
  split
  · rw [Option.toList_none, List.append_nil]
    exact h
  · rename_i hnew
    refine ⟨h.shared, h.numbered, h.count, h.seen, h.queue, h.bytes, h.wire, h.sent, le_rfl, ?_,
      ?_, h.room⟩ <;> rw [Option.toList_some, ← List.cons_append]
    · rw [List.pairwise_append]
      refine ⟨h.receipts, List.pairwise_singleton _ _, fun receipt hreceipt new hmem => ?_⟩
      rw [List.mem_singleton.mp hmem]
      have := h.le_reported receipt hreceipt
      omega
    · exact List.getLast?_concat

theorem accept (h : Linked s r) {receipt : Nat} {receipts : List Nat}
    (hr : s.receipts = receipt :: receipts) :
    r.accept receipt = .ok { r with received := receipt } ∧
      Linked { s with
        window := { s.window with receipts := some { r with received := receipt } }
        receipts } { r with received := receipt } := by
  have hpairs := h.receipts
  have hlast := h.last
  have hle := h.le_reported receipt (by simp [hr])
  have hreported := h.reported
  have hsent := h.sent
  rw [hr, List.pairwise_cons] at hpairs
  rw [hr, List.getLast?_cons_cons] at hlast
  have hnew : r.received < receipt := hpairs.1 receipt (List.mem_cons_self ..)
  refine ⟨?_, rfl, h.numbered, h.count, h.seen.trans hnew.le, h.queue, h.bytes, h.wire, h.sent,
    h.reported, hpairs.2, hlast, h.room⟩
  rw [SurfaceFrameReceipts.accept, if_neg (by omega), if_pos hnew]

theorem step (h : Linked s r) {event : FlowEvent} (hs : s.step event = some s') :
    ∃ r', Linked s' r' := by
  cases event with
  | check =>
    simp only [Flow.step] at hs
    split at hs
    · rename_i hw
      rw [h.hasRoom] at hs
      obtain rfl := Option.some.inj hs
      exact ⟨_, h.check hw⟩
    · cases hs
  | update bytes =>
    simp only [Flow.step] at hs
    split at hs
    · rename_i hw
      obtain rfl := Option.some.inj hs
      exact ⟨_, h.recordNext (by rw [hw]; rfl) bytes⟩
    · cases hs
  | required bytes =>
    cases hw : s.writer <;> simp only [Flow.step, hw] at hs
    · obtain rfl := Option.some.inj hs
      exact ⟨_, h.recordNext (by rw [hw]; rfl) bytes⟩
    · obtain rfl := Option.some.inj hs
      exact ⟨_, h.recordNext (by rw [hw]; rfl) bytes⟩
    · cases hs
  | turn =>
    cases hw : s.writer <;> simp only [Flow.step, hw] at hs
    · cases hs
    · obtain rfl := Option.some.inj hs
      exact ⟨_, h.move (by rw [hw]; exact (List.append_nil _).symm)⟩
    · cases hs
  | flush =>
    cases hw : s.writer <;> simp only [Flow.step, hw] at hs
    · cases hs
    · cases hs
    · obtain rfl := Option.some.inj hs
      exact ⟨_, h.move (by rw [hw]; rfl)⟩
  | observe =>
    cases hw : s.wire with
    | nil =>
      simp only [Flow.step, hw] at hs
      cases hs
    | cons sequence wire =>
      obtain ⟨hok, hlinked⟩ := h.observe hw
      simp only [Flow.step, hw, hok] at hs
      obtain rfl := Option.some.inj hs
      exact ⟨_, hlinked⟩
  | report =>
    obtain rfl := Option.some.inj hs
    exact ⟨_, h.report⟩
  | accept =>
    cases hr : s.receipts with
    | nil =>
      simp only [Flow.step, hr] at hs
      cases hs
    | cons receipt receipts =>
      obtain ⟨hok, hlinked⟩ := h.accept hr
      simp only [Flow.step, hr, h.shared, hok] at hs
      obtain rfl := Option.some.inj hs
      exact ⟨_, hlinked⟩

theorem run {events : List FlowEvent} (h : Linked s r) (hrun : Flow.run events s = some s') :
    ∃ r', Linked s' r' := by
  induction events generalizing s r with
  | nil =>
    obtain rfl := Option.some.inj hrun
    exact ⟨r, h⟩
  | cons event events ih =>
    obtain ⟨middle, hstep, hrest⟩ := Option.bind_eq_some_iff.mp hrun
    obtain ⟨_, hmiddle⟩ := h.step hstep
    exact ih hmiddle hrest

/-! ## Progress -/

theorem observeAll (h : Linked s r) :
    ∃ s', Flow.run (List.replicate s.wire.length .observe) s = some s' ∧ Linked s' r ∧
      s'.wire = [] ∧ s'.writer = s.writer := by
  generalize hw : s.wire = wire
  induction wire generalizing s with
  | nil => exact ⟨s, rfl, h, hw, rfl⟩
  | cons sequence wire ih =>
    obtain ⟨hok, hlinked⟩ := h.observe hw
    obtain ⟨s', hrun, hlinked', hwire, hwriter⟩ := ih hlinked rfl
    refine ⟨s', ?_, hlinked', hwire, hwriter⟩
    simp only [List.length_cons, List.replicate_succ, Flow.run, Flow.step, hw, hok]
    exact hrun

theorem acceptAll (h : Linked s r) :
    ∃ s', Flow.run (List.replicate s.receipts.length .accept) s = some s' ∧
      Linked s' { r with received := s.client.reported } ∧ s'.writer = s.writer := by
  generalize hr : s.receipts = receipts
  induction receipts generalizing s r with
  | nil =>
    have hlast := h.last
    rw [hr] at hlast
    obtain hreceived : r.received = s.client.reported := Option.some.inj hlast
    exact ⟨s, rfl, by rw [← hreceived]; exact h, rfl⟩
  | cons receipt receipts ih =>
    obtain ⟨hok, hlinked⟩ := h.accept hr
    obtain ⟨s', hrun, hlinked', hwriter⟩ := ih hlinked rfl
    refine ⟨s', ?_, hlinked', hwriter⟩
    simp only [List.length_cons, List.replicate_succ, Flow.run, Flow.step, hr, h.shared, hok]
    exact hrun

/-- Once everything on the wire is decoded, one report of it reaches the host. -/
theorem catchUp (h : Linked s r) (hw : s.writer.pending = []) :
    ∃ events s', (∀ event ∈ events, event = .observe ∨ event = .report ∨ event = .accept) ∧
      Flow.run events s = some s' ∧
      Linked s' { r with received := r.highestSent } ∧ s'.writer = s.writer := by
  obtain ⟨s₁, hrun₁, h₁, hwire, hwriter₁⟩ := h.observeAll
  have hsent := h₁.sent
  rw [hwire, hwriter₁, hw] at hsent
  obtain ⟨s₂, hrun₂, h₂, hwriter₂⟩ := h₁.report.acceptAll
  have hreported : s₁.client.reportSurfaceFrames.2.reported = r.highestSent := by
    have := h₁.reported
    unfold SurfaceFrameCounter.reportSurfaceFrames
    simp only [List.append_nil, List.length_nil] at hsent
    split
    · dsimp only
      omega
    · exact hsent
  rw [hreported] at h₂
  let sent := s₁.receipts ++ s₁.client.reportSurfaceFrames.1.toList
  refine ⟨List.replicate s.wire.length .observe ++ .report :: List.replicate sent.length .accept,
    s₂, ?_, ?_, h₂, hwriter₂.trans hwriter₁⟩
  · intro event hevent
    rcases List.mem_append.mp hevent with hevent | hevent
    · exact .inl (List.eq_of_mem_replicate hevent)
    · rcases List.mem_cons.mp hevent with hevent | hevent
      · exact .inr (.inl hevent)
      · exact .inr (.inr (List.eq_of_mem_replicate hevent))
  · rw [run_append, hrun₁]
    exact hrun₂

end Linked

/-- Flow control of one stream, over all interleavings of its tasks. -/
theorem surface_frame_flow_control {s : Flow} (h : Reachable s) :
    ∃ r, s.window.receipts = some r ∧ r.received ≤ r.highestSent ∧
      -- the queue is what the writer knows to be unreceipted, and the counter its exact size
      r.seen ≤ r.received ∧
      s.window.inFlight = s.recorded.filter (r.seen < ·.1) ∧
      s.window.inFlightBytes = (s.window.inFlight.map Prod.snd).sum ∧
      -- a look for room never underflows and leaves exactly the unreceipted frames
      (∃ room w, s.window.hasRoom = some (room, w) ∧
        w.inFlight = s.recorded.filter (r.received < ·.1) ∧
        w.inFlightBytes = (w.inFlight.map Prod.snd).sum ∧
        (room = false → ∃ frame ∈ s.recorded, r.received < frame.1)) ∧
      -- receipts outside the written range are rejected, an honest client's never are
      (∀ n, n < r.received ∨ r.highestSent < n → ∃ error, r.accept n = .error error) ∧
      (∀ receipt receipts, s.receipts = receipt :: receipts → ∃ r', r.accept receipt = .ok r') ∧
      (∀ bytes s', s.step (.update bytes) = some s' → s.window.inFlight = [] ∨
        s.window.inFlight.length < 4 ∧ s.window.inFlightBytes < 32768) ∧
      -- a writer without room gets it once the client has decoded what was sent and reported it
      (s.writer = .selecting false → s.window.inFlight ≠ [] ∧ ∃ events s' w,
        (∀ event ∈ events, event = .observe ∨ event = .report ∨ event = .accept) ∧
        run events s = some s' ∧ s'.window.hasRoom = some (true, w)) := by
  obtain ⟨events, hevents⟩ := h
  obtain ⟨r, hr⟩ := linked_start.run hevents
  refine ⟨r, hr.shared, hr.received_le, hr.seen, ?_, hr.bytes, ⟨_, _, hr.hasRoom, ?_, rfl, ?_⟩,
    ?_, ?_, ?_, ?_⟩
  · rw [hr.queue, hr.numbered.filter_lt, Nat.sub_zero]
  · rw [hr.numbered.filter_lt, Nat.sub_zero]
    rfl
  · intro hroom
    have hne : (s.released r).inFlight ≠ [] := by
      intro hnil
      simp [SurfaceFrameWindow.admits, hnil] at hroom
    obtain ⟨frame, hframe⟩ := List.exists_mem_of_ne_nil _ hne
    have hmem : frame ∈ s.recorded.filter (r.received < ·.1) := by
      rw [hr.numbered.filter_lt, Nat.sub_zero]
      exact hframe
    exact ⟨frame, List.mem_of_mem_filter hmem, by simpa using (List.mem_filter.mp hmem).2⟩
  · intro n hn
    rw [SurfaceFrameReceipts.accept, if_pos (.inr hn)]
    exact ⟨_, rfl⟩
  · intro receipt receipts hreceipts
    exact ⟨_, (hr.accept hreceipts).1⟩
  · intro bytes s' hs
    simp only [step] at hs
    split at hs
    · rename_i hw
      have hadmits := hr.room true hw
      simp only [SurfaceFrameWindow.admits, Bool.true_eq, Bool.or_eq_true, List.isEmpty_iff,
        Bool.and_eq_true, decide_eq_true_eq] at hadmits
      exact hadmits
    · cases hs
  · intro hw
    have hadmits := hr.room false hw
    refine ⟨fun hnil => by simp [SurfaceFrameWindow.admits, hnil] at hadmits, ?_⟩
    obtain ⟨events, s', hkinds, hrun, hlinked, -⟩ := hr.catchUp (by rw [hw]; rfl)
    have hnil : s'.recorded.drop r.highestSent = [] := by
      rw [List.drop_eq_nil_iff, hlinked.count]
    have hroom : (s'.released { r with received := r.highestSent }).admits = true := by
      simp [SurfaceFrameWindow.admits, released, hnil]
    exact ⟨events, s', _, hkinds, hrun, hroom ▸ hlinked.hasRoom⟩

def oneLargeFrame : Flow where
  window := ⟨some ⟨0, 0, 1⟩, [(1, 40000)], 40000⟩
  writer := .selecting false
  recorded := [(1, 40000)]
  wire := [1]
  client := ⟨0, 0⟩
  receipts := []

theorem surface_frame_flow_control_large :
    run [.check, .update 40000, .flush, .check] start = some oneLargeFrame ∧
      oneLargeFrame.window.inFlight ≠ [] ∧ ∃ events s' w,
        (∀ event ∈ events, event = .observe ∨ event = .report ∨ event = .accept) ∧
        run events oneLargeFrame = some s' ∧ s'.window.hasRoom = some (true, w) := by
  have hrun : run [.check, .update 40000, .flush, .check] start = some oneLargeFrame := by decide
  obtain ⟨r, -, -, -, -, -, -, -, -, -, hprogress⟩ := surface_frame_flow_control ⟨_, hrun⟩
  exact ⟨hrun, hprogress rfl⟩

end Flow

end Voytty.Daemon
