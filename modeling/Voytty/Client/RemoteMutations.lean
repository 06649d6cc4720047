import Voytty.Client.RemoteUnary
import Voytty.Daemon.ReplayRuns

/-!
# Remote mutations

The unary client in front of a host that keeps a replay registry. The service
streams of one request are what the two share: the client writes the request
and reads the reply; the host registers what arrived complete, waits for the
execution, and answers. Nothing is assumed of when: a stream may be looked at
long after its attempt was given up, and the rest of the host goes on meanwhile.
-/

namespace Voytty.Client

open Voytty.Proto Voytty.Daemon Relation

/-! ## Reading a reply -/

section Reading

variable {codec : Codec}

variable {frame : DecodedFrame}

theorem readExactResponse_ok {ending : ReadEnd} {chunks : List (List UInt8)}
    {decoder : FrameDecoder} {completed : Option DecodedFrame} (hs : decoder.Short)
    (h : readExactResponse codec ending decoder completed chunks = .ok frame) :
    ∃ frames decoder', decoder.feed codec chunks.flatten = .ok (frames, decoder') ∧
      decoder'.finish = .ok () ∧ completed.toList ++ frames = [frame] := by
  induction chunks generalizing decoder completed with
  | nil =>
    unfold readExactResponse at h
    split at h
    · cases h
    · cases h
    · split at h
      · cases h
      · rename_i hfinish
        cases completed with
        | none => cases h
        | some done =>
          obtain rfl := Except.ok.inj h
          exact ⟨[], decoder, rfl, hfinish, rfl⟩
  | cons chunk chunks ih =>
    unfold readExactResponse at h
    cases hfeed : decoder.feed codec chunk with
    | error e => rw [hfeed] at h; cases h
    | ok out =>
      obtain ⟨frames, decoder₁⟩ := out
      rw [hfeed] at h
      dsimp only at h
      split at h
      · cases h
      · rename_i hone
        have hs₁ : decoder₁.Short :=
          FrameDecoder.feedBytes_shortened hs (FrameDecoder.feed_bytes hs chunk ▸ hfeed)
        obtain ⟨more, decoder₂, hmore, hfinish, hframe⟩ := ih hs₁ h
        refine ⟨frames ++ more, decoder₂, ?_, hfinish, ?_⟩
        · rw [List.flatten_cons, FrameDecoder.feed_append hs, hfeed]
          dsimp only
          rw [hmore]
          rfl
        · rw [← hframe, ← List.append_assoc]
          congr 1
          match frames, completed with
          | [], completed => simp
          | [found], none => rfl
          | [_], some _ => simp at hone
          | _ :: _ :: _, _ => simp at hone

theorem new_short : ({} : FrameDecoder).Short := fun _ h => nomatch h

theorem decodeExactFrame_iff {bytes : List UInt8} :
    decodeExactFrame codec bytes = .ok frame ↔
      ∃ decoder, ({} : FrameDecoder).feed codec bytes = .ok ([frame], decoder) ∧
        decoder.finish = .ok () := by
  unfold decodeExactFrame
  constructor
  · intro h
    split at h
    · cases h
    · rename_i frames decoder hfeed
      split at h
      · cases h
      · rename_i hfinish
        split at h
        · obtain rfl := Except.ok.inj h
          exact ⟨decoder, hfeed, hfinish⟩
        · cases h
  · rintro ⟨decoder, hfeed, hfinish⟩
    rw [hfeed]
    dsimp only
    rw [hfinish]

theorem decodeExactFrame_part {part reply : List UInt8} {full : DecodedFrame}
    (hpart : part <+: reply) (h : decodeExactFrame codec part = .ok frame)
    (hreply : decodeExactFrame codec reply = .ok full) : frame = full := by
  obtain ⟨rest, rfl⟩ := hpart
  obtain ⟨decoder, hfeed, -⟩ := decodeExactFrame_iff.mp h
  obtain ⟨decoder', hfull, -⟩ := decodeExactFrame_iff.mp hreply
  rw [FrameDecoder.feed_append new_short, hfeed] at hfull
  dsimp only at hfull
  cases hrest : decoder.feed codec rest with
  | error e => rw [hrest] at hfull; cases hfull
  | ok out =>
    rw [hrest] at hfull
    simp only [FrameDecoder.after, Except.ok.injEq, Prod.mk.injEq, List.cons_append,
      List.nil_append, List.cons.injEq] at hfull
    exact hfull.1.1

theorem exchange_ok {outcome : StreamOutcome} (h : exchange codec outcome = .ok frame) :
    ∃ chunks ending, outcome = .read chunks ending ∧
      decodeExactFrame codec chunks.flatten = .ok frame := by
  cases outcome with
  | unopened error => cases h
  | interrupted error => cases h
  | unacknowledged => cases h
  | read chunks ending =>
    obtain ⟨frames, decoder, hfeed, hfinish, hframe⟩ := readExactResponse_ok new_short h
    simp only [Option.toList_none, List.nil_append] at hframe
    exact ⟨chunks, ending, rfl, decodeExactFrame_iff.mpr ⟨decoder, hframe ▸ hfeed, hfinish⟩⟩

end Reading

/-! ## The client alone -/

section Alone

variable {codec : UnaryCodec} {transport : Transport} {request : List UInt8} {deadline : Nat}
  {contract : RequestContract}

theorem exchangeAndValidate_ok {outcome : StreamOutcome} {frame : DecodedFrame}
    (h : exchangeAndValidate codec contract outcome = .ok frame) :
    ∃ response, exchange codec.toCodec outcome = .ok response ∧
      contract.validateResponse codec response = .ok frame := by
  unfold exchangeAndValidate at h
  split at h
  · cases h
  · rename_i response hexchange
    split at h
    · cases h
    · rename_i hvalid
      obtain rfl := Except.ok.inj h
      exact ⟨response, hexchange, hvalid⟩

/-- Every way a request can go. -/
inductive Executed (codec : UnaryCodec) (transport : Transport) (request : List UInt8)
    (contract : RequestContract) : Except ClientError DecodedFrame × List Attempt → Prop where
  | unready (error : ClientError) : Executed codec transport request contract (.error error, [])
  | answered {deadline : Nat} {retry : Bool} {frame : DecodedFrame}
      (ok : exchangeAndValidate codec contract transport.first = .ok frame) :
      Executed codec transport request contract
        (.ok frame, [⟨request, deadline, retry, transport.first⟩])
  | unwritten {deadline : Nat} {retry : Bool} {error : ClientError}
      (failed : exchangeAndValidate codec contract transport.first = .error (.preWrite error)) :
      Executed codec transport request contract
        (.error error, [⟨request, deadline, retry, transport.first⟩])
  | control {deadline : Nat} {retry : Bool} {error : ClientError}
      (failed : exchangeAndValidate codec contract transport.first = .error (.postWrite error))
      (control : contract.retryClass = .statefulControl) :
      Executed codec transport request contract
        (.error error, [⟨request, deadline, retry, transport.first⟩])
  | retried {deadline : Nat} {retry : Bool} {error : ClientError} {frame : DecodedFrame}
      (failed : exchangeAndValidate codec contract transport.first = .error (.postWrite error))
      (retries : contract.retryClass ≠ .statefulControl)
      (ok : exchangeAndValidate codec contract transport.second = .ok frame) :
      Executed codec transport request contract (.ok frame,
        [⟨request, deadline, retry, transport.first⟩, ⟨request, deadline, false, transport.second⟩])
  | failedTwice {deadline : Nat} {retry : Bool} {error last : ClientError}
      (failed : exchangeAndValidate codec contract transport.first = .error (.postWrite error))
      (retries : contract.retryClass ≠ .statefulControl)
      (unknown : contract.retryClass = .mutation → last = outcomeUnknown) :
      Executed codec transport request contract (.error last,
        [⟨request, deadline, retry, transport.first⟩, ⟨request, deadline, false, transport.second⟩])

theorem executeValidated_executed :
    Executed codec transport request contract
      (executeValidated codec transport request deadline contract) := by
  unfold executeValidated
  split
  · exact .unready _
  split
  · exact .unready _
  dsimp only
  split
  · rename_i hfirst
    exact .answered hfirst
  · rename_i hfirst
    exact .unwritten hfirst
  · rename_i hfirst
    split
    · rename_i hclass
      exact .control hfirst hclass
    all_goals
      rename_i hclass
      split
      · rename_i hsecond
        exact .retried hfirst (by simp [hclass]) hsecond
      all_goals exact .failedTwice hfirst (by simp [hclass]) (by simp [hclass])

theorem readExactResponse_written {codec : Codec} {ending : ReadEnd} {chunks : List (List UInt8)}
    {decoder : FrameDecoder} {completed : Option DecodedFrame} {error : ClientError} :
    readExactResponse codec ending decoder completed chunks ≠ .error (.preWrite error) := by
  induction chunks generalizing decoder completed with
  | nil =>
    unfold readExactResponse
    split
    · simp
    · simp
    · split
      · simp
      · split <;> simp
  | cons chunk chunks ih =>
    unfold readExactResponse
    split
    · simp
    · split
      · simp
      · exact ih

theorem exchangeAndValidate_preWrite {outcome : StreamOutcome} {error : ClientError}
    (h : exchangeAndValidate codec contract outcome = .error (.preWrite error)) :
    outcome = .unopened error := by
  unfold exchangeAndValidate at h
  split at h
  · rename_i hexchange
    obtain rfl := Except.error.inj h
    cases outcome with
    | unopened error' =>
      simp only [exchange, Except.error.injEq, RemoteAttemptError.preWrite.injEq] at hexchange
      rw [hexchange]
    | interrupted error' => simp [exchange] at hexchange
    | unacknowledged => simp [exchange] at hexchange
    | read chunks ending => exact absurd hexchange readExactResponse_written
  · split at h <;> simp at h

end Alone

/-! ## The streams of a request -/

structure Mutation (F : Type) where
  principal : AttachmentPrincipal
  operationId : OperationId
  fingerprint : F
  requestId : Nat
  wide : operationId.sequence < 2 ^ 64

def Mutation.key {F : Type} (m : Mutation F) : ReplayKey :=
  .new m.principal m.operationId.lease.ordinal

/-- How the host writes an answer: one frame. -/
structure Replies (codec : Codec) (S : Type) where
  bytes : Nat → Except DaemonError S → List UInt8
  frame : Nat → Except DaemonError S → DecodedFrame
  framed : ∀ requestId answer,
    decodeExactFrame codec (bytes requestId answer) = .ok (frame requestId answer)

inductive ServiceStream (S : Type) where
  /-- the request is not complete and never will be -/
  | torn
  | sent
  /-- registered: it executes the operation or waits for the one that does -/
  | waiting (cell : Nat)
  | answered (requestId : Nat) (answer : Except DaemonError S)

structure World (F S : Type) where
  host : Replay F (Except DaemonError S)
  streams : List (ServiceStream S) := []

namespace World

variable {F S : Type}

inductive Step [DecidableEq F] (m : Mutation F) : World F S → World F S → Prop where
  /-- other requests, and every execution that ends -/
  | other {w : World F S} {host : Replay F (Except DaemonError S)}
      (step : Replay.Step w.host host) : Step m w { w with host }
  | registered {w : World F S} {i : Nat} {registration : ReplayRegistration}
      {host : Replay F (Except DaemonError S)} (sent : w.streams[i]? = some .sent)
      (ok : w.host.register m.principal m.operationId m.fingerprint = (.ok registration, host)) :
      Step m w ⟨host, w.streams.set i (.waiting registration.cell)⟩
  | rejected {w : World F S} {i : Nat} {error : DaemonError}
      {host : Replay F (Except DaemonError S)} (sent : w.streams[i]? = some .sent)
      (refused : w.host.register m.principal m.operationId m.fingerprint = (.error error, host)) :
      Step m w ⟨host, w.streams.set i (.answered m.requestId (.error error))⟩
  /-- refused without the registry, or given up: malformed, unauthorised, late -/
  | refused {w : World F S} {i requestId : Nat} {error : DaemonError} {s : ServiceStream S}
      (found : w.streams[i]? = some s) (pending : ∀ id answer, s ≠ .answered id answer) :
      Step m w { w with streams := w.streams.set i (.answered requestId (.error error)) }
  | answered {w : World F S} {i cell : Nat} {answer : Except DaemonError S}
      (found : w.streams[i]? = some (.waiting cell))
      (result : w.host.cells.result cell = some answer) :
      Step m w { w with streams := w.streams.set i (.answered m.requestId answer) }

/-- What a client may have read of a stream. -/
def Part {codec : Codec} (replies : Replies codec S) (bytes : List UInt8) :
    Option (ServiceStream S) → Prop
  | some (.answered requestId answer) => bytes <+: replies.bytes requestId answer
  | _ => bytes = []

/-- One attempt, with all that the host does meanwhile. -/
inductive Exchange [DecidableEq F] {codec : Codec} (m : Mutation F) (replies : Replies codec S) (w : World F S) :
    StreamOutcome → World F S → Prop where
  | unopened {w' : World F S} {error : ClientError} (run : ReflTransGen (Step m) w w') :
      Exchange m replies w (.unopened error) w'
  | torn {w' : World F S} {error : ClientError}
      (run : ReflTransGen (Step m) { w with streams := w.streams ++ [.torn] } w') :
      Exchange m replies w (.interrupted error) w'
  /-- everything arrived all the same -/
  | unnoticed {w' : World F S} {error : ClientError}
      (run : ReflTransGen (Step m) { w with streams := w.streams ++ [.sent] } w') :
      Exchange m replies w (.interrupted error) w'
  | unacknowledged {w' : World F S}
      (run : ReflTransGen (Step m) { w with streams := w.streams ++ [.sent] } w') :
      Exchange m replies w .unacknowledged w'
  | read {w' : World F S} {chunks : List (List UInt8)} {ending : ReadEnd}
      (run : ReflTransGen (Step m) { w with streams := w.streams ++ [.sent] } w')
      (part : Part replies chunks.flatten w'.streams[w.streams.length]?) :
      Exchange m replies w (.read chunks ending) w'

inductive Exchanges [DecidableEq F] {codec : Codec} (m : Mutation F) (replies : Replies codec S) :
    World F S → List StreamOutcome → World F S → Prop where
  | nil (w : World F S) : Exchanges m replies w [] w
  | cons {w w₁ w' : World F S} {outcome : StreamOutcome} {outcomes : List StreamOutcome}
      (first : Exchange m replies w outcome w₁) (rest : Exchanges m replies w₁ outcomes w') :
      Exchanges m replies w (outcome :: outcomes) w'

/-! ## What an answer says -/

def Granted (m : Mutation F) (w : World F S) (cell : Nat) : Prop :=
  ⟨m.key, m.operationId.sequence, cell⟩ ∈ w.host.granted

def Answer (m : Mutation F) (w : World F S) (answer : Except DaemonError S) : Prop :=
  (∃ cell, Granted m w cell ∧ w.host.cells.result cell = some answer) ∨
    ∃ error, answer = .error error

def Sound (m : Mutation F) (w : World F S) : ServiceStream S → Prop
  | .torn => True
  | .sent => True
  | .waiting cell => Granted m w cell
  | .answered _ answer => Answer m w answer

structure Inv (m : Mutation F) (w : World F S) : Prop where
  host : w.host.Inv
  sound : ∀ s ∈ w.streams, Sound m w s

/-- What stays: grants and results, and a stream once it is there. -/
structure Later (w w' : World F S) : Prop where
  granted : ∀ g ∈ w.host.granted, g ∈ w'.host.granted
  results : ∀ cell answer, w.host.cells.result cell = some answer →
    w'.host.cells.result cell = some answer
  streams : w.streams.length ≤ w'.streams.length

theorem Later.refl (w : World F S) : Later w w := ⟨fun _ h => h, fun _ _ h => h, le_refl _⟩

theorem Later.trans {w w' w'' : World F S} (h : Later w w') (h' : Later w' w'') : Later w w'' :=
  ⟨fun g hg => h'.granted g (h.granted g hg), fun c a hr => h'.results c a (h.results c a hr),
    h.streams.trans h'.streams⟩

section Steps

variable {m : Mutation F} {w w' : World F S}

theorem Answer.later {answer : Except DaemonError S} (h : Answer m w answer) (hl : Later w w') :
    Answer m w' answer := by
  rcases h with ⟨cell, hgranted, hresult⟩ | herror
  · exact .inl ⟨cell, hl.granted _ hgranted, hl.results _ _ hresult⟩
  · exact .inr herror

theorem Sound.later {s : ServiceStream S} (h : Sound m w s) (hl : Later w w') : Sound m w' s := by
  cases s with
  | torn => trivial
  | sent => trivial
  | waiting cell => exact hl.granted _ h
  | answered requestId answer => exact Answer.later h hl

theorem Inv.streams (h : Inv m w) (hl : Later w w') (hhost : w'.host.Inv)
    (hstreams : ∀ s ∈ w'.streams, s ∈ w.streams ∨ Sound m w' s) : Inv m w' where
  host := hhost
  sound := fun s hs => by
    rcases hstreams s hs with hold | hnew
    · exact (h.sound s hold).later hl
    · exact hnew

variable [DecidableEq F]

theorem Inv.register (h : Inv m w) {i : Nat} {s : ServiceStream S}
    {host : Replay F (Except DaemonError S)} {result : Except DaemonError ReplayRegistration}
    (hr : w.host.register m.principal m.operationId m.fingerprint = (result, host))
    (hs : Sound m ⟨host, w.streams.set i s⟩ s) :
    Inv m ⟨host, w.streams.set i s⟩ ∧ Later w ⟨host, w.streams.set i s⟩ := by
  have hstep := Replay.Step.register w.host m.principal m.operationId m.fingerprint m.wide
  rw [hr] at hstep
  have hlater : Later w ⟨host, w.streams.set i s⟩ :=
    ⟨fun g hg => Replay.step_granted hstep hg, fun _ _ hr => Replay.step_result hstep hr, by simp⟩
  refine ⟨h.streams hlater (Replay.step_inv hstep h.host) fun s' hs' => ?_, hlater⟩
  rcases List.mem_or_eq_of_mem_set hs' with hold | rfl
  · exact .inl hold
  · exact .inr hs

omit [DecidableEq F] in
theorem Inv.answer (h : Inv m w) {i requestId : Nat} {answer : Except DaemonError S}
    (ha : Answer m w answer) :
    Inv m { w with streams := w.streams.set i (.answered requestId answer) } ∧
      Later w { w with streams := w.streams.set i (.answered requestId answer) } := by
  have hlater : Later w { w with streams := w.streams.set i (.answered requestId answer) } :=
    ⟨fun _ h => h, fun _ _ h => h, by simp⟩
  refine ⟨h.streams hlater h.host fun s' hs' => ?_, hlater⟩
  rcases List.mem_or_eq_of_mem_set hs' with hold | rfl
  · exact .inl hold
  · exact .inr (ha.later hlater)

theorem Inv.step (h : Inv m w) (hstep : Step m w w') : Inv m w' ∧ Later w w' := by
  cases hstep with
  | other step =>
    have hlater : Later w { w with host := _ } :=
      ⟨fun g hg => Replay.step_granted step hg, fun _ _ hr => Replay.step_result step hr, le_refl _⟩
    exact ⟨h.streams hlater (Replay.step_inv step h.host) fun _ hs => .inl hs, hlater⟩
  | registered sent ok => exact h.register ok (Replay.register_granted h.host ok)
  | rejected sent refused => exact h.register refused (.inr ⟨_, rfl⟩)
  | refused found pending => exact h.answer (.inr ⟨_, rfl⟩)
  | answered found result =>
    exact h.answer (.inl ⟨_, h.sound _ (List.mem_of_getElem? found), result⟩)

theorem Inv.run (h : Inv m w) (hrun : ReflTransGen (Step m) w w') : Inv m w' ∧ Later w w' := by
  induction hrun with
  | refl => exact ⟨h, .refl w⟩
  | tail _ hstep ih =>
    obtain ⟨hinv, hlater⟩ := ih.1.step hstep
    exact ⟨hinv, ih.2.trans hlater⟩

omit [DecidableEq F] in
theorem Inv.opened (h : Inv m w) {s : ServiceStream S} (hs : s = .torn ∨ s = .sent) :
    Inv m { w with streams := w.streams ++ [s] } ∧
      Later w { w with streams := w.streams ++ [s] } := by
  have hlater : Later w { w with streams := w.streams ++ [s] } :=
    ⟨fun _ h => h, fun _ _ h => h, by simp⟩
  refine ⟨h.streams hlater h.host fun s' hs' => ?_, hlater⟩
  rcases List.mem_append.mp hs' with hold | hnew
  · exact .inl hold
  · obtain rfl := List.mem_singleton.mp hnew
    rcases hs with rfl | rfl <;> exact .inr trivial

theorem run_streams (hrun : ReflTransGen (Step m) w w') :
    w'.streams.length = w.streams.length := by
  induction hrun with
  | refl => rfl
  | tail _ hstep ih =>
    rw [← ih]
    cases hstep with
    | other => rfl
    | registered | rejected | refused | answered => exact List.length_set

theorem Inv.exchange {codec : Codec} {replies : Replies codec S} {outcome : StreamOutcome}
    (h : Inv m w) (hx : Exchange m replies w outcome w') : Inv m w' ∧ Later w w' := by
  cases hx with
  | unopened run => exact h.run run
  | torn run =>
    obtain ⟨hinv, hlater⟩ := h.opened (.inl rfl)
    exact ⟨(hinv.run run).1, hlater.trans (hinv.run run).2⟩
  | unnoticed run | unacknowledged run | read run part =>
    obtain ⟨hinv, hlater⟩ := h.opened (.inr rfl)
    exact ⟨(hinv.run run).1, hlater.trans (hinv.run run).2⟩

theorem Exchange.answer {codec : Codec} {replies : Replies codec S} {outcome : StreamOutcome}
    {frame : DecodedFrame} (hx : Exchange m replies w outcome w') (h : Inv m w')
    (hframe : Client.exchange codec outcome = .ok frame) :
    ∃ requestId answer, frame = replies.frame requestId answer ∧ Answer m w' answer := by
  obtain ⟨chunks, ending, rfl, hdecode⟩ := exchange_ok hframe
  cases hx with
  | read run part =>
    unfold Part at part
    split at part
    · rename_i requestId answer hfound
      exact ⟨requestId, answer, decodeExactFrame_part part hdecode (replies.framed _ _),
        h.sound _ (List.mem_of_getElem? hfound)⟩
    · obtain ⟨decoder, hfeed, -⟩ := decodeExactFrame_iff.mp (part ▸ hdecode)
      cases hfeed

end Steps

end World

/-! ## Exactly once -/

section Exact

variable {F S : Type} [DecidableEq F] {codec : UnaryCodec} {replies : Replies codec.toCodec S}
  {m : Mutation F} {w w' : World F S} {transport : Transport} {request : List UInt8}
  {contract : RequestContract} {run : Except ClientError DecodedFrame × List Attempt}

theorem Executed.attempts (h : Executed codec transport request contract run) :
    run.2.length ≤ 2 ∧ (∀ attempt ∈ run.2, attempt.request = request) ∧
      (∀ first second, run.2 = [first, second] → ∃ error,
        exchangeAndValidate codec contract first.outcome = .error (.postWrite error)) ∧
      (contract.retryClass = .statefulControl → run.2.length ≤ 1) := by
  cases h with
  | unready => simp
  | answered | unwritten | control => simp
  | retried failed retries ok | failedTwice failed retries unknown =>
    refine ⟨by simp, by simp, ?_, fun h => absurd h retries⟩
    rintro first second hrun
    obtain ⟨rfl, -⟩ := List.cons.inj hrun
    exact ⟨_, failed⟩

theorem Executed.response (h : Executed codec transport request contract run)
    (hinv : World.Inv m w) (hx : World.Exchanges m replies w (run.2.map (·.outcome)) w')
    {response : DecodedFrame} (hok : run.1 = .ok response) :
    ∃ requestId answer, contract.validateResponse codec (replies.frame requestId answer) =
      .ok response ∧ World.Answer m w' answer := by
  cases h with
  | unready | unwritten | control | failedTwice => cases hok
  | answered ok =>
    obtain rfl := Except.ok.inj hok
    obtain ⟨frame, hframe, hvalid⟩ := exchangeAndValidate_ok ok
    cases hx with
    | cons first rest =>
      cases rest
      obtain ⟨requestId, answer, rfl, hanswer⟩ := first.answer (hinv.exchange first).1 hframe
      exact ⟨requestId, answer, hvalid, hanswer⟩
  | retried failed retries ok =>
    obtain rfl := Except.ok.inj hok
    obtain ⟨frame, hframe, hvalid⟩ := exchangeAndValidate_ok ok
    cases hx with
    | cons first rest =>
      cases rest with
      | cons second rest =>
        cases rest
        obtain ⟨hfirst, -⟩ := hinv.exchange first
        obtain ⟨requestId, answer, rfl, hanswer⟩ := second.answer (hfirst.exchange second).1 hframe
        exact ⟨requestId, answer, hvalid, hanswer⟩

theorem Executed.written (h : Executed codec transport request contract run)
    (hstreams : w.streams = []) (hx : World.Exchanges m replies w (run.2.map (·.outcome)) w')
    (hmutation : contract.retryClass = .mutation) (hwritten : w'.streams ≠ []) :
    (∃ response, run.1 = .ok response) ∨ run.1 = .error outcomeUnknown := by
  cases h with
  | unready error =>
    cases hx
    exact absurd hstreams hwritten
  | answered ok | retried failed retries ok => exact .inl ⟨_, rfl⟩
  | unwritten failed =>
    rw [exchangeAndValidate_preWrite failed] at hx
    cases hx with
    | cons first rest =>
      cases rest
      cases first with
      | unopened steps =>
        have hlength := World.run_streams steps
        rw [hstreams] at hlength
        exact absurd (List.length_eq_zero_iff.mp hlength) hwritten
  | control failed hcontrol =>
    rw [hmutation] at hcontrol
    cases hcontrol
  | failedTwice failed retries unknown => exact .inr (by rw [unknown hmutation])

theorem executePreencoded_cases (codec : UnaryCodec) (transport : Transport) (target : DeviceId)
    (requestId : Nat) (request : List UInt8) (deadline : Nat) :
    (∃ error, executePreencoded codec transport target requestId request deadline =
      (.error error, [])) ∨
    ∃ contract, RequestContract.inspect codec request target = .ok contract ∧
      Executed codec transport request contract
        (executePreencoded codec transport target requestId request deadline) := by
  unfold executePreencoded
  split
  · exact .inl ⟨_, rfl⟩
  · rename_i contract hinspect
    split
    · exact .inl ⟨_, rfl⟩
    · exact .inr ⟨contract, hinspect, executeValidated_executed⟩

theorem inspect_kind {target : DeviceId} {frame : DecodedFrame}
    (h : RequestContract.inspect codec request target = .ok contract)
    (hframe : decodeExactFrame codec.toCodec request = .ok frame) :
    unaryKind frame.kind = some (contract.responseKind, contract.retryClass) := by
  unfold RequestContract.inspect at h
  rw [hframe] at h
  dsimp only at h
  split at h
  · cases h
  · rename_i hkind
    split at h
    · cases h
    · split at h
      · cases h
      · obtain rfl := Except.ok.inj h
        exact hkind

theorem World.Inv.exchanges {outcomes : List StreamOutcome} (h : World.Inv m w)
    (hx : World.Exchanges m replies w outcomes w') : World.Inv m w' := by
  induction hx with
  | nil w => exact h
  | cons first rest ih => exact ih (h.exchange first).1

end Exact

/-- A remote mutation is sent at most twice and executed at most once, whatever the transport
does; a success is the execution's result, and after a write only the host or the report of an
unknown outcome speaks. -/
theorem remote_mutation_exactly_once {F S : Type} [DecidableEq F] (codec : UnaryCodec)
    (replies : Replies codec.toCodec S) (m : Mutation F) (incarnation : DaemonIncarnation)
    (host : Replay F (Except DaemonError S))
    (hhost : ReflTransGen Replay.Step (.start incarnation) host) (transport : Transport)
    (target : DeviceId) (request : List UInt8) (deadline : Nat)
    (w w' : World F S)
    (hrun : World.Exchanges m replies { host } ((executePreencoded codec transport target
      m.requestId request deadline).2.map (·.outcome)) w)
    (hlater : ReflTransGen (World.Step m) w w') :
    let run := executePreencoded codec transport target m.requestId request deadline
    run.2.length ≤ 2 ∧ (∀ attempt ∈ run.2, attempt.request = request) ∧
    (∀ first second, run.2 = [first, second] → ∃ contract error,
      RequestContract.inspect codec request target = .ok contract ∧
        exchangeAndValidate codec contract first.outcome = .error (.postWrite error)) ∧
    (w'.host.granted.map fun g => (g.key, g.sequence)).count (m.key, m.operationId.sequence) ≤ 1 ∧
    ∀ frame, decodeExactFrame codec.toCodec request = .ok frame →
      (frame.kind = .sessionOperationLeaseRequest → run.2.length ≤ 1) ∧
      (frame.kind ∈ [.sessionCreateRequest, .sessionRenameRequest, .sessionCloseRequest,
          .sessionTakeoverRequest] →
        (∀ response, run.1 = .ok response → ∃ contract requestId answer,
          RequestContract.inspect codec request target = .ok contract ∧
          contract.validateResponse codec (replies.frame requestId answer) = .ok response ∧
          World.Answer m w answer) ∧
        (w.streams ≠ [] → (∃ response, run.1 = .ok response) ∨ run.1 = .error outcomeUnknown)) := by
  intro run
  have hstart : World.Inv m ({ host } : World F S) := ⟨(Replay.reachable_inv hhost).1, by simp⟩
  have hend : World.Inv m w' := ((hstart.exchanges hrun).run hlater).1
  have honce := List.nodup_iff_count_le_one.mp hend.host.once (m.key, m.operationId.sequence)
  rcases executePreencoded_cases codec transport target m.requestId request deadline with
    ⟨error, hfailed⟩ | ⟨contract, hinspect, hexecuted⟩
  · -- refused here: nothing was sent
    have hnone : run = (.error error, []) := hfailed
    rw [hfailed] at hrun
    cases hrun
    refine ⟨by simp [hnone], by simp [hnone], by simp [hnone], honce, fun frame hframe =>
      ⟨by simp [hnone], fun _ => ⟨by simp [hnone], by simp⟩⟩⟩
  · obtain ⟨htwo, hsame, hafter, hcontrol⟩ := hexecuted.attempts
    refine ⟨htwo, hsame, fun first second hboth => ?_, honce, fun frame hframe => ?_⟩
    · obtain ⟨error, hfailed⟩ := hafter first second hboth
      exact ⟨contract, error, hinspect, hfailed⟩
    · have hkind := inspect_kind hinspect hframe
      refine ⟨fun hlease => hcontrol ?_, fun hmutates => ⟨fun response hok => ?_, fun hwritten => ?_⟩⟩
      · rw [hlease] at hkind
        simp only [unaryKind, Option.some.injEq, Prod.mk.injEq] at hkind
        exact hkind.2.symm
      · obtain ⟨requestId, answer, hvalid, hanswer⟩ := hexecuted.response hstart hrun hok
        exact ⟨contract, requestId, answer, hinspect, hvalid, hanswer⟩
      · have hmutation : contract.retryClass = .mutation := by
          simp only [List.mem_cons, List.not_mem_nil, or_false] at hmutates
          rcases hmutates with hk | hk | hk | hk
          all_goals
            rw [hk] at hkind
            simp only [unaryKind, Option.some.injEq, Prod.mk.injEq] at hkind
            exact hkind.2.symm
        exact hexecuted.written rfl hrun hmutation hwritten

/-! ### A lost response -/

/-- Messages as bytes: the kind, the request id, the payload. -/
def byteCodec : UnaryCodec where
  wireFrame := fun
    | kind :: requestId :: payload => .ok ⟨wireMajor, kind.toNat, payload, requestId.toNat, 0, 0⟩
    | _ => .error "short"
  encodedLen := fun wire => wire.payload.length + 2
  inflate := fun payload _ => .ok payload
  requestTarget := fun _ payload => .ok (some (.device payload))
  serviceError := fun _ => .error "none"
  encodeServiceError := fun _ _ => []
  validatePayload := fun _ _ => .ok ()

def byteReplies : Replies byteCodec.toCodec Nat where
  bytes := fun requestId _ => [2, 203, UInt8.ofNat requestId]
  frame := fun requestId _ => ⟨.sessionMutateResponse, (UInt8.ofNat requestId).toNat, 0, []⟩
  framed := fun _ _ => rfl

def renameMutation : Mutation Nat where
  principal := .remoteEndpoint 1 3
  operationId := ⟨⟨7, 1⟩, 5⟩
  fingerprint := 40
  requestId := 9
  wide := by decide

def renameRequest : List UInt8 := [34, 204, 9] ++ List.replicate 32 0

/-- The first attempt is carried out and not acknowledged, the second is answered. -/
def lossyTransport : Transport where
  first := .unacknowledged
  second := .read [[2, 203], [9]] .eof

def leasedHost : Replay Nat (Except DaemonError Nat) :=
  ((.start 7 : Replay Nat (Except DaemonError Nat)).issue (.remoteEndpoint 1 3)
    fun _ _ _ => false).2

/-- The host after the first registration, and once the execution has ended. -/
def renamedHost : Replay Nat (Except DaemonError Nat) :=
  (leasedHost.register (.remoteEndpoint 1 3) ⟨⟨7, 1⟩, 5⟩ 40).2.complete 0 (.ok 1)

def replayedHost : Replay Nat (Except DaemonError Nat) :=
  (renamedHost.register (.remoteEndpoint 1 3) ⟨⟨7, 1⟩, 5⟩ 40).2

theorem renamed_run :
    World.Exchanges renameMutation byteReplies { host := leasedHost }
      [.unacknowledged, .read [[2, 203], [9]] .eof]
      ⟨replayedHost, [.waiting 0, .answered 9 (.ok 1)]⟩ := by
  have hexecute : leasedHost.register (.remoteEndpoint 1 3) ⟨⟨7, 1⟩, 5⟩ 40 =
      (.ok (.execute 0), (leasedHost.register (.remoteEndpoint 1 3) ⟨⟨7, 1⟩, 5⟩ 40).2) := rfl
  have hjoin : renamedHost.register (.remoteEndpoint 1 3) ⟨⟨7, 1⟩, 5⟩ 40 =
      (.ok (.join 0), replayedHost) := rfl
  have hfirst : ReflTransGen (World.Step renameMutation) ⟨leasedHost, [.sent]⟩
      ⟨renamedHost, [.waiting 0]⟩ :=
    .tail (.single (.registered (i := 0) rfl hexecute)) (.other (.complete _ 0 (Except.ok 1)))
  have hresult : renamedHost.cells.result 0 = some (.ok 1) := rfl
  have hsecond : ReflTransGen (World.Step renameMutation) ⟨renamedHost, [.waiting 0, .sent]⟩
      ⟨replayedHost, [.waiting 0, .answered 9 (.ok 1)]⟩ :=
    .tail (.single (.registered (i := 1) rfl hjoin)) (.answered (i := 1) rfl hresult)
  exact .cons (.unacknowledged hfirst)
    (.cons (.read hsecond (List.prefix_refl [2, 203, 9])) (.nil _))

theorem remote_mutation_exactly_once_renamed :
    (executePreencoded byteCodec lossyTransport 0 9 renameRequest 100).1 =
      .ok ⟨.sessionMutateResponse, 9, 0, []⟩ ∧
    (replayedHost.granted.map fun g => (g.key, g.sequence)).count
      (renameMutation.key, renameMutation.operationId.sequence) ≤ 1 := by
  have hattempts : (executePreencoded byteCodec lossyTransport 0 renameMutation.requestId
      renameRequest 100).2.map (·.outcome) = [.unacknowledged, .read [[2, 203], [9]] .eof] := rfl
  have hissued : ReflTransGen Replay.Step (.start 7) leasedHost :=
    .single (.issue _ _ _ nofun)
  exact ⟨rfl, (remote_mutation_exactly_once byteCodec byteReplies renameMutation 7 leasedHost
    hissued lossyTransport 0 renameRequest 100 _ _ (hattempts ▸ renamed_run) .refl).2.2.2.1⟩

end Voytty.Client
