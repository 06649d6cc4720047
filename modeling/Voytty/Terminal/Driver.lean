import Voytty.Terminal.ReplyRuns

/-!
# The thread that owns a terminal

`daemon/src/terminal_driver.rs` runs the model on one thread. Output whose
replies exceed their bound is a failure that ends the thread, and with it the
session: chunks below three kibibytes cannot reach the bound, while one read
of the default size can.
-/

namespace Voytty.Terminal

open Voytty.Lib Relation

variable {R : Type} {em : Emulator R} {m : Machine R}

/-- The thread of `daemon/src/terminal_driver.rs` that owns the model: a chunk that fails is
recorded as the driver's failure and ends the thread. -/
structure ModelThread (R : Type) where
  model : TerminalModel R
  failure : Option TerminalError := none

variable (em) in
def ModelThread.apply (d : ModelThread R) (op : ModelOp) : ModelThread R :=
  if d.failure.isSome then d
  else
    match op with
    | .ingest clock bytes =>
      match d.model.ingest em clock bytes with
      | (.ok _, model) => { d with model := model }
      | (.error e, model) => ⟨model, some e⟩
    | op => { d with model := d.model.apply em op }

/-- The chunks a bound admits. -/
def ModelOp.Short (limit : Nat) : ModelOp → Prop
  | .ingest _ bytes => bytes.length < limit
  | _ => True

/-- The driver's `DEFAULT_READ_CHUNK_BYTES`. -/
def defaultReadChunkBytes : Nat := 8 * 1024

section Thread

variable {t : TerminalModel R}

theorem ingest_short (law : Base64Law em.toVendor) (word : WordLaw em) (h : ModelInv Counted t)
    (clock : Nat → Nat) {bytes : List UInt8} (hshort : bytes.length < 3072) :
    (∃ u, (t.ingest em clock bytes).1 = .ok u) ∨
      (t.ingest em clock bytes).1 = .error .revisionOverflow := by
  have hfunds : Ingest.Solvent { model := t } bytes.length := ⟨h, by
    have := h.sound.policy.collected.credit_le
    have : maxReplyBytesPerUpdate = 65536 := rfl
    simp only [List.length_nil]
    omega⟩
  have hr := hfunds.rounds law word clock bytes.length
  have hingested := ingestObserving_ingested em t clock bytes
  cases hok : (t.ingest em clock bytes).1 with
  | ok u => exact .inl ⟨u, rfl⟩
  | error e =>
    rw [(hingested.error e).mp hok] at hr
    exact .inr (congrArg _ (Except.error.inj (hr.resolve_left nofun)))

/-- A thread that has recorded no failure, or only that revisions have run out. -/
structure ModelThread.Steady (d : ModelThread R) : Prop where
  inv : ModelInv Counted d.model
  failure : d.failure = none ∨ d.failure = some .revisionOverflow

theorem ModelThread.Steady.apply (law : Base64Law em.toVendor) (word : WordLaw em)
    {d : ModelThread R} (h : d.Steady) {op : ModelOp} (hsize : op.Allowed InU16)
    (hshort : op.Short 3072) : (d.apply em op).Steady := by
  have hnext := (h.inv.apply (counted_law word) hsize).1
  unfold ModelThread.apply
  split
  · exact h
  split
  · rename_i clock bytes
    have hok := ingest_short law word h.inv clock hshort
    have hmodel : d.model.apply em (.ingest clock bytes) = (d.model.ingest em clock bytes).2 := rfl
    rw [hmodel] at hnext
    split <;> rename_i hi <;> rw [hi] at hok hnext
    · exact ⟨hnext, h.failure⟩
    · rcases hok with ⟨u, hok⟩ | hok
      · cases hok
      · cases hok
        exact ⟨hnext, .inr rfl⟩
  · exact ⟨hnext, h.failure⟩

end Thread

/-- When every chunk is shorter than three kibibytes, no output of the child makes the driver
record a failure, short of exhausting the revisions. -/
theorem short_output_never_fails (em : Emulator R) (law : Base64Law em.toVendor)
    (word : WordLaw em) (size : TerminalSize) (hsize : InU16 size) (scrollbackRows : Nat)
    (t : TerminalModel R) (hnew : TerminalModel.new em size scrollbackRows = .ok t)
    (ops : List ModelOp) (hops : ∀ op ∈ ops, op.Allowed InU16 ∧ op.Short 3072) :
    (ops.foldl (·.apply em) (⟨t, none⟩ : ModelThread R)).failure = none ∨
      (ops.foldl (·.apply em) (⟨t, none⟩ : ModelThread R)).failure = some .revisionOverflow := by
  have hblank : Counted (.blank em size scrollbackRows) :=
    have hw := word.init size scrollbackRows hsize
    ⟨hw.1, hw.2, Nat.zero_le _, Nat.zero_le _⟩
  have hstart : ModelThread.Steady ⟨t, none⟩ :=
    ⟨.new (counted_law word) hnew hblank, .inl rfl⟩
  have hrun : ∀ (ops : List ModelOp) (d : ModelThread R), d.Steady →
      (∀ op ∈ ops, op.Allowed InU16 ∧ op.Short 3072) → (ops.foldl (·.apply em) d).Steady := by
    intro ops
    induction ops with
    | nil => exact fun d hd _ => hd
    | cons op ops ih =>
      intro d hd hops
      have hop := hops op List.mem_cons_self
      exact ih _ (hd.apply law word hop.1 hop.2) fun op' h => hops op' (List.mem_cons_of_mem _ h)
  exact (hrun ops _ hstart hops).failure

theorem short_output_never_fails_typewriter :
    ∃ t, TerminalModel.new encodingTypewriter ⟨24, 80⟩ 100 = .ok t ∧
      unknownColorQuery.length < 3072 ∧
      (([ModelOp.ingest id unknownColorQuery, .resize ⟨30, 100⟩].foldl (·.apply encodingTypewriter)
        (⟨t, none⟩ : ModelThread Unit)).failure = none ∨
      ([ModelOp.ingest id unknownColorQuery, .resize ⟨30, 100⟩].foldl (·.apply encodingTypewriter)
        (⟨t, none⟩ : ModelThread Unit)).failure = some .revisionOverflow) :=
  ⟨_, rfl, by decide, short_output_never_fails encodingTypewriter encodingTypewriter_base64
    encodingTypewriter_word ⟨24, 80⟩ (by simp [InU16]) 100 _ rfl
    [.ingest id unknownColorQuery, .resize ⟨30, 100⟩]
    (by simp [ModelOp.Allowed, ModelOp.Short, InU16, unknownColorQuery])⟩

/-! ## A chunk that exceeds the bound -/

def capabilityFields : List Char := "536574756c63;536574756c63".toList

def queryText : List UInt8 := encode ("+q".toList ++ capabilityFields)

/-- `ESC P + q` fields `ESC \`. -/
def capabilityQuery : List UInt8 := [0x1b, 0x50] ++ queryText ++ [0x1b, 0x5c]

theorem capabilityQuery_length : capabilityQuery.length = 31 := by decide +kernel

theorem capabilities_length : (encode (capabilities capabilityFields)).length = 280 := by
  decide +kernel

/-- A machine with nothing pending apart from its framing. -/
structure Idle (m : Machine R) : Prop where
  utf8 : m.policy.utf8 = []
  boundary : m.policy.boundary = none
  events : m.engine.sink = {}

theorem Idle.setState (h : Idle m) (state : PolicyState) : Idle (m.setState state) :=
  ⟨h.utf8, h.boundary, h.events⟩

theorem Idle.byte {m' : Machine R} (h : Idle m') {b : UInt8} (hb : m.processByte em b = (.ok (), m'))
    (rest : List UInt8) :
    Machine.processUntilBoundary em (b :: rest) m = Machine.processUntilBoundary em rest m' := by
  have hcollect : m'.collectEvents = m' := by
    unfold Machine.collectEvents AlacrittyEngine.takeEvents
    rw [h.events]
    simp only [EventBuffer.finish, List.foldl_nil, ↓reduceIte, Machine.setEngine, ← h.events]
  rw [Machine.processUntilBoundary, hb]
  simp only [hcollect, h.boundary, Option.isSome_none, Bool.false_eq_true, ↓reduceIte]

def dcsState (bytes : List UInt8) (sawEscape : Bool) : PolicyState :=
  .string { kind := .dcs, bytes := bytes, sawEscape := sawEscape }

theorem Idle.payload (h : Idle m) (p rest bytes : List UInt8)
    (hp : ∀ b ∈ p, 0x20 ≤ b ∧ b < 0x7f) (hlen : bytes.length + p.length ≤ maxControlStringBytes) :
    Machine.processUntilBoundary em (p ++ rest) (m.setState (dcsState bytes false)) =
      Machine.processUntilBoundary em rest (m.setState (dcsState (bytes ++ p) false)) := by
  induction p generalizing bytes with
  | nil => simp
  | cons b p ih =>
    obtain ⟨hlow, hhigh⟩ := hp b List.mem_cons_self
    have hlt : bytes.length < maxControlStringBytes := by simp at hlen; omega
    have hpush : ({ kind := .dcs, bytes := bytes } : ControlString).push b =
        { kind := .dcs, bytes := bytes ++ [b] } := by
      have hlead : utf8Lead b = none := by
        unfold utf8Lead
        grind
      simp [ControlString.push, ControlString.trackUtf8, ControlString.isUtf8Continuation, hlead, hlt]
    have hstep : (m.setState (dcsState bytes false)).processByte em b =
        (.ok (), m.setState (dcsState (bytes ++ [b]) false)) := by
      have h18 : ¬(b = 0x18 ∨ b = 0x1a) := by grind
      have h9c : b ≠ 0x9c := by grind
      have h1b : b ≠ 0x1b := by grind
      simp [Machine.processByte, Machine.setState, dcsState, Machine.processString, h18, h9c, h1b, hpush]
    rw [List.cons_append, (h.setState _).byte hstep,
      ih _ (fun c hc => hp c (List.mem_cons_of_mem _ hc)) (by simp at hlen ⊢; omega)]
    simp

theorem capabilityText : decode queryText =
    some ("+q".toList ++ capabilityFields) := by decide +kernel

theorem queryText_plain : ∀ b ∈ queryText, 0x20 ≤ b ∧ b < 0x7f := by
  have hall : queryText.all (fun b => 0x20 ≤ b && b < 0x7f) = true := by decide +kernel
  exact fun b hb => by simpa using List.all_eq_true.mp hall b hb

theorem setState_ground (hg : m.policy.state = .ground) : m.setState .ground = m := by
  unfold Machine.setState
  rw [← hg]

theorem Idle.introducer (h : Idle m) (hg : m.policy.state = .ground) (rest : List UInt8) :
    Machine.processUntilBoundary em (0x1b :: 0x50 :: rest) m =
      Machine.processUntilBoundary em rest (m.setState (dcsState [] false)) := by
  have hescape : m.processByte em 0x1b = (.ok (), m.setState (.escape (.new [0x1b]))) := by
    simp [Machine.processByte, hg, Machine.processGround, Machine.flushPartialUtf8,
      setState_ground hg, h.utf8]
  have hopen : (m.setState (.escape (.new [0x1b]))).processByte em 0x50 =
      (.ok (), m.setState (dcsState [] false)) := by
    simp [Machine.processByte, Machine.processEscape, Machine.interruptSequence, Machine.setState,
      Sequence.new, c1Introducer, isEmbeddedControl, stringIntroducer, dcsState]
  rw [(h.setState _).byte hescape, (h.setState _).byte hopen]

/-- The terminator of the capability query pushes its answer. -/
theorem capabilityQuery_answered (hg : m.policy.state = .ground) :
    (m.setState (dcsState queryText true)).processByte em 0x5c =
      m.pushReply (capabilities capabilityFields) := by
  have hstrip : stripPre "+q".toList ("+q".toList ++ capabilityFields) = some capabilityFields := by
    decide
  have hground : ∀ state, (m.setState state).setState .ground = m := fun _ => setState_ground hg
  have hdispatch : m.dispatchString em { kind := .dcs, bytes := queryText } "\x1b\\".toList =
      m.pushReply (capabilities capabilityFields) := by
    simp only [Machine.dispatchString, capabilityText, Machine.dcsReply, hstrip,
      Bool.false_eq_true, ↓reduceIte]
  simp only [Machine.processByte, hground]
  simp only [Machine.setState, dcsState, Machine.processString]
  simpa using hdispatch

theorem Idle.query (h : Idle m) (hg : m.policy.state = .ground) (rest : List UInt8) :
    Machine.processUntilBoundary em (capabilityQuery ++ rest) m =
      Machine.processUntilBoundary em (0x5c :: rest) (m.setState (dcsState queryText true)) := by
  have hescape : (m.setState (dcsState queryText false)).processByte em 0x1b =
      (.ok (), m.setState (dcsState queryText true)) := by
    simp [Machine.processByte, Machine.processString, Machine.setState, dcsState]
  have hsplit : capabilityQuery ++ rest =
      0x1b :: 0x50 :: (queryText ++ 0x1b :: 0x5c :: rest) := by simp [capabilityQuery]
  rw [hsplit, h.introducer hg, h.payload queryText _ [] queryText_plain (by decide +kernel),
    List.nil_append, (h.setState _).byte hescape]

theorem Idle.overflows_engine (n : Nat) (h : Idle m) (hg : m.policy.state = .ground)
    (hfit : m.output.replies.length ≤ maxReplyBytesPerUpdate)
    (hn : maxReplyBytesPerUpdate < m.output.replies.length + 280 * n) :
    ∃ m', Machine.processUntilBoundary em (List.replicate n capabilityQuery).flatten m =
      (.error .replyOverflow, m') ∧ m'.engine = m.engine := by
  induction n generalizing m with
  | zero => omega
  | succ n ih =>
    rw [List.replicate_succ, List.flatten_cons, h.query hg]
    by_cases hover : m.output.replies.length + 280 > maxReplyBytesPerUpdate
    · have hpush : m.pushReply (capabilities capabilityFields) = (.error .replyOverflow, m) := by
        rw [Machine.pushReply, capabilities_length, if_pos hover]
      rw [Machine.processUntilBoundary, capabilityQuery_answered hg, hpush]
      exact ⟨_, rfl, rfl⟩
    · -- the answer fits: the rest of the queries meet a fuller update
      have hpush : m.pushReply (capabilities capabilityFields) = (.ok (), { m with output :=
          { m.output with replies := m.output.replies ++ encode (capabilities capabilityFields) } }) := by
        rw [Machine.pushReply, capabilities_length, if_neg hover]
      have hidle : Idle { m with output :=
          { m.output with replies := m.output.replies ++ encode (capabilities capabilityFields) } } :=
        ⟨h.utf8, h.boundary, h.events⟩
      rw [hidle.byte ((capabilityQuery_answered hg).trans hpush)]
      refine ih hidle hg ?_ ?_
      all_goals
        simp only [List.length_append, capabilities_length]
        omega

def capabilityFlood : List UInt8 := (List.replicate 235 capabilityQuery).flatten

theorem capabilityFlood_length : capabilityFlood.length = 7285 := by
  simp only [capabilityFlood, List.length_flatten, List.map_replicate, List.sum_replicate,
    capabilityQuery_length, smul_eq_mul]

theorem round_fails {clock : Nat → Nat} {bytes : List UInt8} {t : TerminalModel R}
    {e : TerminalError} {g : Ingest R} (hne : bytes ≠ [])
    (h : ({ model := t } : Ingest R).round em clock bytes = (.error e, g)) :
    t.ingest em clock bytes = (.error e, g.model) := by
  have hr : Ingest.rounds em clock bytes.length bytes { model := t } = (.error e, g) := by
    obtain ⟨b, rest, rfl⟩ := List.exists_cons_of_ne_nil hne
    rw [List.length_cons, Ingest.rounds, h]
    simp
  unfold TerminalModel.ingest TerminalModel.ingestObserving
  rw [if_neg (by simpa using hne), hr]

theorem round_overflows {clock : Nat → Nat} {bytes : List UInt8} {g g' : Ingest R}
    {revision : Nat} {m : Machine R} (hexpire : g.expire clock = g')
    (hnext : g'.model.nextRevision = .ok revision)
    (hover : Machine.processUntilBoundary em bytes g'.machine = (.error .replyOverflow, m)) :
    g.round em clock bytes = (.error .replyOverflow, g'.install revision m) := by
  unfold Ingest.machine at hover
  unfold Ingest.round
  simp only [hexpire, hnext, hover]

/-- A new terminal refuses the queries of one default read. -/
theorem ingest_flood {size : TerminalSize} {scrollbackRows : Nat} {t : TerminalModel R}
    (h : TerminalModel.new em size scrollbackRows = .ok t) (clock : Nat → Nat) :
    ∃ model, t.ingest em clock capabilityFlood = (.error .replyOverflow, model) := by
  obtain ⟨hingress, hrevision, hsync, hengine⟩ := new_ingress h
  have hne : capabilityFlood ≠ [] := List.ne_nil_of_length_pos (by rw [capabilityFlood_length]; simp)
  -- nothing is held, so the round starts from the new model and an empty output
  have hexpire : ({ model := t } : Ingest R).expire clock = { model := t, tick := 1 } := by
    simp [Ingest.expire, TerminalModel.expireSynchronizedOutput, TerminalModel.presentationDeadline,
      hsync]
  have hnext : t.nextRevision = .ok 1 := by
    simp [TerminalModel.nextRevision, hrevision, checkedNext]
  have hidle : Idle ({ model := t, tick := 1 } : Ingest R).machine :=
    ⟨by simp [Ingest.machine, hingress], by simp [Ingest.machine, hingress],
      by simp [Ingest.machine, hengine]; rfl⟩
  obtain ⟨m, hover, -⟩ : ∃ m, Machine.processUntilBoundary em capabilityFlood
      ({ model := t, tick := 1 } : Ingest R).machine = (.error .replyOverflow, m) ∧ _ :=
    hidle.overflows_engine 235 (by simp [Ingest.machine, hingress]) (Nat.zero_le _)
      (by simp [Ingest.machine, maxReplyBytesPerUpdate])
  exact ⟨_, round_fails hne (round_overflows hexpire hnext hover)⟩

theorem ModelThread.apply_flood (size : TerminalSize) (scrollbackRows : Nat) {t : TerminalModel R}
    (h : TerminalModel.new em size scrollbackRows = .ok t) (clock : Nat → Nat) :
    ((⟨t, none⟩ : ModelThread R).apply em (.ingest clock capabilityFlood)).failure =
      some .replyOverflow := by
  obtain ⟨model, hflood⟩ := ingest_flood h clock
  simp only [ModelThread.apply, Option.isSome_none, Bool.false_eq_true, ↓reduceIte, hflood]

/-- One default read of capability queries ends the session. -/
theorem capability_flood_fails :
    ∃ t : TerminalModel Unit, TerminalModel.new encodingTypewriter ⟨24, 80⟩ 100 = .ok t ∧
      capabilityFlood.length ≤ defaultReadChunkBytes ∧
      ((⟨t, none⟩ : ModelThread Unit).apply encodingTypewriter (.ingest id capabilityFlood)).failure =
        some .replyOverflow :=
  have hread : capabilityFlood.length ≤ defaultReadChunkBytes :=
    capabilityFlood_length ▸ (by decide : 7285 ≤ defaultReadChunkBytes)
  ⟨_, rfl, hread, ModelThread.apply_flood ⟨24, 80⟩ 100 rfl id⟩

end Voytty.Terminal
