import Voytty.Terminal.Runs

/-!
# Text in the ground state

The tokens handed over and the pending bytes together are the bytes of text read,
over any number of calls and however the stream is cut.
-/

namespace Voytty.Terminal

open Voytty.Lib

/-! ## Whole streams -/

/-- The text read in the ground state, and the tokens handed over for it. -/
structure TextLog where
  read : List UInt8 := []
  handed : List TextToken := []

/-- The log after one byte read with the filter at `p`. -/
def TextLog.note (log : TextLog) (p : TerminalIngressPolicy) (byte : UInt8) : TextLog :=
  if p.state = .ground then
    ⟨log.read ++ groundBytes p.utf8 byte, log.handed ++ (groundTokens p.utf8 byte).1⟩
  else log

/-- What was read is what was handed over and what is pending. -/
structure TextLog.Lossless (log : TextLog) (p : TerminalIngressPolicy) : Prop where
  bytes : log.handed.flatMap TextToken.bytes ++ p.utf8 = log.read
  proper : ∀ t ∈ log.handed, t.Proper

namespace Machine

variable {R : Type} (em : Emulator R)

/-- The log of `processUntilBoundary`. -/
def textLog : List UInt8 → Machine R → TextLog → TextLog
  | [], _, log => log
  | byte :: bytes, m, log =>
    match m.processByte em byte with
    | (.error _, _) => log.note m.policy byte
    | (.ok (), m') =>
      let m' := m'.collectEvents
      if m'.policy.boundary.isSome then log.note m.policy byte
      else textLog bytes m' (log.note m.policy byte)

variable {em}

theorem processByte_ground_utf8 {m : Machine R} (hg : m.policy.state = .ground) (byte : UInt8) :
    (m.processByte em byte).2.policy.utf8 = (groundTokens m.policy.utf8 byte).2 := by
  rw [processByte_ground em m hg]
  obtain ⟨q, hq⟩ := hands_policy em (groundTokens m.policy.utf8 byte).1
    (m.setPending (groundTokens m.policy.utf8 byte).2)
  exact congrArg TerminalIngressPolicy.utf8 hq

theorem processByte_utf8 {m : Machine R} (hm : PolicyInv m.policy) (hg : m.policy.state ≠ .ground)
    (b : UInt8) : (m.processByte em b).2.policy.utf8 = m.policy.utf8 := by
  have htook : Took em m b (m.processByte em b) := processByte_took hm b
  generalize m.processByte em b = s at htook
  cases htook with
  | stays h hempty => exact (hempty hg).trans (hm.idle hg).symm
  | enters h hempty => exact hempty.trans (hm.idle hg).symm
  | reset => rfl
  | csi hs hb =>
    have hok := hm.state
    rw [hs] at hok
    exact (dispatchCsi_replied covers_contained hm.ground.marks hok (CsiOk.contained hok hb)).kept.utf8
  | string =>
    rw [(Aside.dispatchString _ _).policy]
    rfl

theorem note_lossless {m : Machine R} (hm : PolicyInv m.policy) {log : TextLog}
    (h : log.Lossless m.policy) (byte : UInt8) :
    (log.note m.policy byte).Lossless (m.processByte em byte).2.policy := by
  unfold TextLog.note
  split
  · rename_i hg
    have hbyte := groundTokens_accounts hm.pending byte
    refine ⟨?_, fun t ht => ?_⟩
    · rw [processByte_ground_utf8 hg, ← h.bytes, List.flatMap_append, List.append_assoc,
        hbyte.bytes, List.append_assoc]
    · exact (List.mem_append.mp ht).elim (h.proper t) fun ht => (hbyte.handed t ht).proper
  · rename_i hg
    exact ⟨by rw [processByte_utf8 hm hg]; exact h.bytes, h.proper⟩

theorem textLog_lossless (bytes : List UInt8) {m : Machine R} (hm : PolicyInv m.policy)
    {log : TextLog} (h : log.Lossless m.policy) :
    (textLog em bytes m log).Lossless (processUntilBoundary em bytes m).2.policy := by
  induction bytes generalizing m log with
  | nil => exact h
  | cons byte bytes ih =>
    have hnote : (log.note m.policy byte).Lossless (m.processByte em byte).2.policy :=
      note_lossless hm h byte
    have hadmitted : Admitted em m (m.processByte em byte).2 := processByte_admitted hm byte
    unfold textLog processUntilBoundary
    rcases heq : m.processByte em byte with ⟨_ | _, m'⟩
    · rw [heq] at hnote
      exact hnote
    · rw [heq] at hnote hadmitted
      have hcollect : Mute em m' m'.collectEvents := .collectEvents
      have hnext : (log.note m.policy byte).Lossless m'.collectEvents.policy := by
        rw [hcollect.policy]
        exact hnote
      dsimp only
      split
      · exact hnext
      · exact ih hadmitted.collectEvents.policy hnext

end Machine

/-! ### Streams of text alone -/

def decodeText (pending : List UInt8) : List UInt8 → List TextToken × List UInt8
  | [] => ([], pending)
  | byte :: bytes =>
    let (tokens, left) := groundTokens pending byte
    let (later, left) := decodeText left bytes
    (tokens ++ later, left)

/-- No byte of the stretch introduces a sequence. -/
def TextOnly (pending : List UInt8) : List UInt8 → Prop
  | [] => True
  | byte :: bytes => introduces pending byte = false ∧ TextOnly (groundTokens pending byte).2 bytes

example : decodeText [] [0x41, 0xe2, 0x82, 0x42, 0xf0, 0x9f] =
    ([.character 'A', .fragment [0xe2, 0x82], .character 'B'], [0xf0, 0x9f]) := by
  decide +kernel

theorem decodeText_append (pending xs ys : List UInt8) :
    decodeText pending (xs ++ ys) =
      ((decodeText pending xs).1 ++ (decodeText (decodeText pending xs).2 ys).1,
        (decodeText (decodeText pending xs).2 ys).2) := by
  induction xs generalizing pending with
  | nil => rfl
  | cons x xs ih => simp [decodeText, ih]

theorem textOnly_append {xs ys : List UInt8} :
    TextOnly pending (xs ++ ys) ↔ TextOnly pending xs ∧ TextOnly (decodeText pending xs).2 ys := by
  induction xs generalizing pending with
  | nil => simp [TextOnly, decodeText]
  | cons x xs ih => simp [TextOnly, decodeText, ih, and_assoc]

variable {R : Type}

/-- In the ground state, with no boundary to stop at. -/
structure AtText (m : Machine R) (pending : List UInt8) : Prop where
  state : m.policy.state = .ground
  boundary : m.policy.boundary = none
  utf8 : m.policy.utf8 = pending

namespace Machine

variable {em : Emulator R}

theorem processByte_text {m : Machine R} {pending : List UInt8} (h : AtText m pending)
    {byte : UInt8} (ht : introduces pending byte = false) :
    ∃ m', m.processByte em byte = (.ok (), m') ∧
      AtText m'.collectEvents (groundTokens pending byte).2 := by
  refine ⟨_, processByte_ground em m h.state byte, ?_⟩
  obtain ⟨q, hq⟩ := hands_policy em (groundTokens m.policy.utf8 byte).1
    (m.setPending (groundTokens m.policy.utf8 byte).2)
  have hcollect : ∀ n : Machine R, Mute em n n.collectEvents := fun _ => .collectEvents
  refine ⟨?_, ?_, ?_⟩
  · rw [(hcollect _).policy]
    exact h.utf8 ▸ groundState_text ht
  · rw [(hcollect _).policy]
    exact (congrArg TerminalIngressPolicy.boundary hq).trans h.boundary
  · rw [(hcollect _).policy, ← h.utf8]
    exact congrArg TerminalIngressPolicy.utf8 hq

/-- A stretch of text is read to its end, and the log is its decoding. -/
theorem processUntilBoundary_text (bytes : List UInt8) {m : Machine R} {pending : List UInt8}
    (h : AtText m pending) (ht : TextOnly pending bytes) (log : TextLog) :
    (processUntilBoundary em bytes m).1 = .ok [] ∧
      AtText (processUntilBoundary em bytes m).2 (decodeText pending bytes).2 ∧
      textLog em bytes m log =
        ⟨log.read ++ bytes, log.handed ++ (decodeText pending bytes).1⟩ := by
  induction bytes generalizing m pending log with
  | nil => exact ⟨rfl, h, by simp [textLog, decodeText]⟩
  | cons byte bytes ih =>
    obtain ⟨hbyte, hrest⟩ := ht
    obtain ⟨m', hstep, hnext⟩ : ∃ m', m.processByte em byte = (.ok (), m') ∧ _ :=
      processByte_text h hbyte
    obtain ⟨hok, hend, hlog⟩ := ih hnext hrest (log.note m.policy byte)
    have hboundary : m'.collectEvents.policy.boundary.isSome = false := by simp [hnext.boundary]
    unfold processUntilBoundary textLog
    simp only [hstep, hboundary, Bool.false_eq_true, ↓reduceIte]
    refine ⟨hok, hend, hlog.trans ?_⟩
    simp [TextLog.note, h.state, h.utf8, groundBytes, hbyte, decodeText]

end Machine

/-! ## Every stream in every cut -/

/-- A call of `processUntilBoundary`, and what its caller does to the machine before it: the
boundary is taken, and neither the framing nor the pending bytes are touched. -/
structure IngressCall (R : Type) where
  prepare : Machine R → Machine R
  bytes : List UInt8
  state : ∀ m, (prepare m).policy.state = m.policy.state
  utf8 : ∀ m, (prepare m).policy.utf8 = m.policy.utf8
  boundary : ∀ m, (prepare m).policy.boundary = none
  admitted : ∀ m, PolicyInv m.policy → PolicyInv (prepare m).policy

/-- The next chunk, for a new update. -/
def IngressCall.chunk (bytes : List UInt8) : IngressCall R where
  prepare m := { m with policy := { m.policy with boundary := none }, output := {} }
  bytes := bytes
  state := fun _ => rfl
  utf8 := fun _ => rfl
  boundary := fun _ => rfl
  admitted := fun _ h => h.takeBoundary

def IngressCall.run (em : Emulator R) (s : Machine R × TextLog) (call : IngressCall R) :
    Machine R × TextLog :=
  ((Machine.processUntilBoundary em call.bytes (call.prepare s.1)).2,
    Machine.textLog em call.bytes (call.prepare s.1) s.2)

theorem IngressCall.runs_lossless (em : Emulator R) (calls : List (IngressCall R))
    {s : Machine R × TextLog} (hm : PolicyInv s.1.policy) (h : s.2.Lossless s.1.policy) :
    PolicyInv (calls.foldl (run em) s).1.policy ∧
      (calls.foldl (run em) s).2.Lossless (calls.foldl (run em) s).1.policy := by
  induction calls generalizing s with
  | nil => exact ⟨hm, h⟩
  | cons call calls ih =>
    have hp := call.admitted s.1 hm
    have hcall : Admitted em _ _ := processUntilBoundary_admitted call.bytes hp
    refine ih hcall.policy ?_
    exact Machine.textLog_lossless call.bytes hp ⟨by rw [call.utf8]; exact h.bytes, h.proper⟩

theorem IngressCall.runs_text (em : Emulator R) (calls : List (IngressCall R))
    {s : Machine R × TextLog} (hs : s.1.policy.state = .ground) (hu : s.1.policy.utf8 = pending)
    (ht : TextOnly pending (calls.flatMap (·.bytes))) :
    (calls.foldl (run em) s).1.policy.utf8 = (decodeText pending (calls.flatMap (·.bytes))).2 ∧
      (calls.foldl (run em) s).2 = ⟨s.2.read ++ calls.flatMap (·.bytes),
        s.2.handed ++ (decodeText pending (calls.flatMap (·.bytes))).1⟩ := by
  induction calls generalizing s pending with
  | nil => exact ⟨hu, by simp [decodeText]⟩
  | cons call calls ih =>
    rw [List.flatMap_cons] at ht ⊢
    obtain ⟨hhere, hlater⟩ := textOnly_append.mp ht
    have hready : AtText (call.prepare s.1) pending :=
      ⟨(call.state s.1).trans hs, call.boundary s.1, (call.utf8 s.1).trans hu⟩
    obtain ⟨-, hat, hlog⟩ : (Machine.processUntilBoundary em _ _).1 = _ ∧ _ ∧ _ :=
      Machine.processUntilBoundary_text call.bytes hready hhere s.2
    obtain ⟨hutf8, hrest⟩ := ih (s := run em s call) hat.state hat.utf8 hlater
    rw [List.foldl_cons, decodeText_append]
    refine ⟨hutf8, hrest.trans ?_⟩
    simp [run, hlog]

theorem incomplete_extends {p : List UInt8} (h : scan p = .incomplete) :
    ∃ c more, more ≠ [] ∧ String.utf8EncodeChar c = p ++ more := by
  have hs := scan_scans p
  rw [h] at hs
  cases hs with
  | incomplete _ _ c more pos ext => exact ⟨c, more, pos, ext⟩

/-- From a fresh filter, over any calls in any cut: the text read in the ground state is the
tokens handed over and the pending bytes, in order; what is pending is a proper prefix of an
encoding; and the drain loop ends. -/
theorem ground_text_lossless (em : Emulator R) (engine : AlacrittyEngine R)
    (output : UpdateCollector) (calls : List (IngressCall R)) :
    let run := calls.foldl (IngressCall.run em) (⟨{}, engine, output⟩, {})
    -- what was read is what was handed over, in order, and what is pending
    run.2.handed.flatMap TextToken.bytes ++ run.1.policy.utf8 = run.2.read ∧
    (∀ t ∈ run.2.handed, t.Proper) ∧
    run.1.policy.utf8.length ≤ 3 ∧
    (∃ c more, more ≠ [] ∧ String.utf8EncodeChar c = run.1.policy.utf8 ++ more) ∧
    -- a stream of text is all read, and the cut does not matter
    (TextOnly [] (calls.flatMap (·.bytes)) →
      run.2.read = calls.flatMap (·.bytes) ∧
      (run.2.handed, run.1.policy.utf8) = decodeText [] (calls.flatMap (·.bytes))) ∧
    -- the log is what the machine does
    (∀ (m : Machine R) (byte : UInt8), m.policy.state = .ground →
      m.processByte em byte =
        (.ok (), ((groundTokens m.policy.utf8 byte).1.foldl (Machine.hand em)
          (m.setPending (groundTokens m.policy.utf8 byte).2)).setState
            (groundState m.policy.utf8 byte))) ∧
    -- the drain loop ends by itself: more rounds than pending bytes change nothing
    (∀ (m : Machine R) (fuel : Nat), m.policy.utf8.length < fuel →
      Machine.drainUtf8 em fuel m = Machine.drainUtf8 em (m.policy.utf8.length + 1) m) := by
  intro run
  obtain ⟨hinv, hlossless⟩ := IngressCall.runs_lossless em calls
    (s := (⟨{}, engine, output⟩, {})) PolicyInv.init ⟨rfl, nofun⟩
  refine ⟨hlossless.bytes, hlossless.proper, Nat.le_of_lt_succ (incomplete_length hinv.pending),
    incomplete_extends hinv.pending, fun ht => ?_,
    fun m byte hg => Machine.processByte_ground em m hg byte,
    fun m fuel h => Machine.drainUtf8_stable em m h⟩
  obtain ⟨hutf8, hlog⟩ := IngressCall.runs_text em calls
    (s := (⟨{}, engine, output⟩, {})) rfl rfl ht
  exact ⟨congrArg TextLog.read hlog, Prod.ext (congrArg TextLog.handed hlog) hutf8⟩

/-- A character cut after its second byte is printed once. -/
theorem ground_text_lossless_cut :
    let run := [IngressCall.chunk [0xe2, 0x82], .chunk [0xac]].foldl (IngressCall.run typewriter)
      (⟨{}, .new typewriter ⟨24, 80⟩ 100, {}⟩, {})
    (run.2.handed, run.1.policy.utf8) = ([.character '€'], []) := by
  obtain ⟨-, -, -, -, htext, -⟩ := ground_text_lossless typewriter (.new typewriter ⟨24, 80⟩ 100) {}
    [.chunk [0xe2, 0x82], .chunk [0xac]]
  have honly : TextOnly [] [0xe2, 0x82, 0xac] :=
    ⟨by decide +kernel, by decide +kernel, by decide +kernel, trivial⟩
  exact (htext honly).2.trans (by decide +kernel)

end Voytty.Terminal
