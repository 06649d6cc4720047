import Voytty.Lib.Fifo
import Voytty.Terminal.Publication
import Voytty.Terminal.ReplyRuns

/-!
# What a history epoch identifies

The emulator keeps the lines scrolled off the main screen in a bounded queue
(`FifoHistory`, an assumption about it). The model looks at the queue's length
once per round. So an epoch pins the lines of a history down as long as a
sequence that clears it is the last thing fed in its round: `eraseLast` says so
of a chunk, and `Recorded` relates the model to everything published before.
-/

namespace Voytty.Terminal

open Voytty.Lib Relation

variable {R : Type} {em : Emulator R}

/-! ## The emulator's history -/

/-- A sequence that may clear the history: a reset, or an erase in display with a digit 3 among
its parameters. -/
def ClearsHistory (bytes : List UInt8) : Prop :=
  bytes = [0x1b, 0x63] ∨ bytes.take 2 = [0x1b, 0x5b] ∧ bytes.getLast? = some 0x4a ∧ 0x33 ∈ bytes

instance (bytes : List UInt8) : Decidable (ClearsHistory bytes) := by
  unfold ClearsHistory; infer_instance

/-- `history` gives the main screen's lines above the viewport, oldest first: a queue that only
takes lines at its end, drops the oldest beyond its capacity, or is cleared. -/
structure FifoHistory (em : Emulator R) (capacity : Nat)
    (history : Term R → List (Nat → Cell)) : Prop where
  init : ∀ size,
    history (em.advance (em.init size capacity) AlacrittyEngine.alternateScrollOff).1 = []
  advance : ∀ t bytes, (∃ lines, history (em.advance t bytes).1 =
      boundedAppend capacity (history t) lines) ∨
    ClearsHistory bytes ∧ history (em.advance t bytes).1 = [] ∧
      (em.advance t bytes).1.mode.altScreen = false
  resize : ∀ t size, (history (em.resize t size)).length ≤ capacity
  cursor : ∀ t cursor, history { t with cursor } = history t
  size : ∀ t, t.mode.altScreen = false → t.historySize = (history t).length
  lines : ∀ t (i : Nat) line, t.mode.altScreen = false → (history t)[i]? = some line →
    t.cell ((i : Int) - t.historySize) = line

/-! ## Chunks that clear the history only at their end -/

def collectsThree : PolicyState → Bool
  | .csi sequence => 0x33 ∈ sequence.bytes
  | _ => false

/-- No `J` before the last byte ends a sequence with a digit 3; `collecting` says that a 3 was
read and no final byte since. -/
def eraseLast : Bool → List UInt8 → Bool
  | _, [] => true
  | _, [_] => true
  | collecting, b :: c :: rest =>
    !(collecting && b == 0x4a) &&
      eraseLast (!isCsiFinal b && (collecting || b == 0x33)) (c :: rest)

theorem eraseLast_cons {collecting : Bool} {b : UInt8} {rest : List UInt8}
    (h : eraseLast collecting (b :: rest) = true) :
    (rest ≠ [] → ¬ (collecting = true ∧ b = 0x4a)) ∧
      eraseLast (!isCsiFinal b && (collecting || b == 0x33)) rest = true := by
  cases rest with
  | nil => exact ⟨fun hne => absurd rfl hne, rfl⟩
  | cons c rest =>
    simp only [eraseLast, Bool.and_eq_true] at h
    exact ⟨fun _ hc => by simp [hc] at h, h.2⟩

/-! ### What a byte leaves being collected -/

theorem Sequence.mem_push {s : Sequence} {b c : UInt8} (h : c ∈ (s.push b).bytes) :
    c ∈ s.bytes ∨ c = b := by
  unfold Sequence.push Sequence.noteInputByte at h
  dsimp only at h
  split at h
  · simp only [Prod.mk.injEq] at *
    grind
  · grind

/-- A digit 3 is collected by itself, and survives every byte that is not final. -/
theorem Enters.collectsThree {b : UInt8} {state next : PolicyState} (h : Enters b state next)
    (hs : StateOk state) (ht : collectsThree next = true) :
    (!isCsiFinal b && (Terminal.collectsThree state || b == 0x33)) = true := by
  cases h with
  | escape | opened | notedEscape | escapes | payload => cases ht
  | csi => cases ht
  | @notedCsi s hb =>
    have hthree : Terminal.collectsThree (.csi s) = true := ht
    rw [hb, hthree]
    rfl
  | bracket hlen hb =>
    -- nothing but the introducer is collected yet
    rcases hs with ho | ⟨tail, hbytes, -, -⟩
    · simp [ho] at hlen
    · have htail : tail = [] := by
        have := congrArg List.length hbytes
        simp only [hlen.1, List.length_append, List.length_singleton] at this
        exact List.length_eq_zero_iff.mp (by omega)
      rcases Sequence.mem_push (of_decide_eq_true ht) with hmem | hmem
      · simp [hbytes, htail] at hmem
      · rw [hb] at hmem
        cases hmem
  | collects hb =>
    have hfinal : isCsiFinal b = false := by
      unfold isCsiFinal
      grind
    rcases Sequence.mem_push (of_decide_eq_true ht) with hmem | hmem
    · simp [hfinal, Terminal.collectsThree, hmem]
    · rw [hfinal, hmem]
      simp

theorem processByte_collectsThree {m : Machine R} {b : UInt8} (hm : PolicyInv m.policy)
    (h : collectsThree (m.processByte em b).2.policy.state = true) :
    (!isCsiFinal b && (collectsThree m.policy.state || b == 0x33)) = true := by
  have htook : Took em m b (m.processByte em b) := processByte_took hm b
  have hok := hm.state
  generalize m.processByte em b = s at htook h
  cases htook with
  | stays hpassed =>
    rw [hpassed.state] at h
    cases h
  | enters _ _ hs => exact hs.collectsThree hok h
  | reset => cases h
  | csi hs hb =>
    rw [hs] at hok
    rw [(dispatchCsi_replied covers_contained hm.ground.marks hok
      (CsiOk.contained hok hb)).kept.state] at h
    cases h
  | string =>
    rw [(Aside.dispatchString _ _).policy] at h
    cases h

/-! ## The history of an engine -/

section Engine

variable {capacity : Nat} {history : Term R → List (Nat → Cell)} {e e' e'' : AlacrittyEngine R}
  {m m' : Machine R} {b : UInt8} {bytes : List UInt8}

/-- The history grew, and moved only with input. -/
structure Moved (capacity : Nat) (history : Term R → List (Nat → Cell))
    (e e' : AlacrittyEngine R) : Prop where
  grown : Grown capacity (history e.term) (history e'.term)
  still : e'.gridInput = false →
    e.gridInput = false ∧ history e'.term = history e.term ∧ e'.activeScreen = e.activeScreen

theorem Moved.refl (hb : (history e.term).length ≤ capacity) : Moved capacity history e e :=
  ⟨.refl hb, fun h => ⟨h, rfl, rfl⟩⟩

theorem Moved.trans (h : Moved capacity history e e') (h' : Moved capacity history e' e'') :
    Moved capacity history e e'' where
  grown := h.grown.trans h'.grown
  still := fun hstill => by
    obtain ⟨hinput, hhistory, hscreen⟩ := h'.still hstill
    obtain ⟨hinput', hhistory', hscreen'⟩ := h.still hinput
    exact ⟨hinput', hhistory.trans hhistory', hscreen.trans hscreen'⟩

/-- The history was cleared on the main screen. -/
structure Emptied (history : Term R → List (Nat → Cell)) (e : AlacrittyEngine R) : Prop where
  empty : history e.term = []
  main : e.activeScreen = .main
  input : e.gridInput = true

/-- What keeps the history covers all that is neither collected nor a reset. -/
theorem covers_keeps : Covers (¬ ClearsHistory ·) where
  plain := fun _ h hclears => hclears.elim h.reset fun hcsi => h.csi hcsi.1
  modes := fun modes enabled _ hclears => by
    rcases hclears with hreset | ⟨-, hlast, -⟩
    · simp [privateModeSequence] at hreset
    · unfold privateModeSequence at hlast
      rw [List.getLast?_concat] at hlast
      cases enabled <;> simp at hlast

theorem csi_keeps {s : Sequence} (hs : CsiOk s) (h : ¬ (collectsThree (.csi s) = true ∧ b = 0x4a))
    (ho : (s.push b).overflowed = false) : ¬ ClearsHistory (s.push b).bytes := by
  obtain ⟨tail, hbytes, -, hstart, -⟩ := hs.final ho
  rintro (hreset | ⟨-, hlast, hthree⟩)
  · simp [hbytes] at hreset
  · rw [hbytes, List.getLast?_concat] at hlast
    obtain rfl : b = 0x4a := Option.some.inj hlast
    refine h ⟨?_, rfl⟩
    rw [hbytes, ← hstart] at hthree
    simpa [collectsThree] using hthree

/-- An erase in display feeds itself or nothing. -/
theorem dispatchCsi_erase {s : Sequence} (hs : CsiOk s) :
    (m.dispatchCsi em (s.push 0x4a)).2.engine = m.engine ∨
      (m.dispatchCsi em (s.push 0x4a)).2.engine = m.engine.feedRaw em (s.push 0x4a).bytes := by
  unfold Machine.dispatchCsi
  by_cases hshort : (s.push 0x4a).overflowed ∨ (s.push 0x4a).bytes.length < 3
  · rw [if_pos hshort]
    exact .inl rfl
  · rw [if_neg hshort]
    obtain ⟨tail, hbytes, -⟩ := hs.final (by simpa using (not_or.mp hshort).1)
    have hlast : (s.push 0x4a).bytes.getLastD 0 = 0x4a := by rw [hbytes, List.getLastD_concat]
    dsimp only
    rw [hlast, if_neg fun h => absurd h.2 (by decide), if_neg fun h => absurd h.1 (by decide),
      if_neg fun h => absurd h.2 (by decide), if_neg fun h => absurd h.1 (by decide)]
    iterate 4 rw [if_neg (by decide)]
    rw [if_neg fun h => absurd h.1 (by decide)]
    split
    · exact .inl rfl
    · exact .inr rfl

variable (law : FifoHistory em capacity history)
include law

theorem Moved.of_still (h : Still e e') (hb : (history e.term).length ≤ capacity) :
    Moved capacity history e e' := by
  obtain ⟨cursor, hterm⟩ := h.term
  have hhistory : history e'.term = history e.term := by rw [hterm, law.cursor]
  exact ⟨by rw [hhistory]; exact .refl hb, fun hi => ⟨h.input ▸ hi, hhistory, h.screen⟩⟩

theorem Emptied.locally : Preserved (LocalStep em) (Emptied history) := by
  intro e e' step he
  have hstill := step.effect.1
  obtain ⟨cursor, hterm⟩ := hstill.term
  exact ⟨by rw [hterm, law.cursor, he.empty], hstill.screen.trans he.main,
    hstill.input.trans he.input⟩

theorem Fed.moved (h : Fed em bytes e e') :
    (¬ ClearsHistory bytes → Moved capacity history e e') ∧
      (Moved capacity history e e' ∨ Emptied history e') := by
  have hmoved : (∃ lines, history (em.advance e.term bytes).1 =
      boundedAppend capacity (history e.term) lines) → Moved capacity history e e' := by
    rintro ⟨lines, hlines⟩
    refine ⟨?_, by simp [h.input]⟩
    rw [h.term, hlines]
    exact .append capacity _ lines
  rcases law.advance e.term bytes with hlines | ⟨hclears, hempty, hmain⟩
  · exact ⟨fun _ => hmoved hlines, .inl (hmoved hlines)⟩
  · refine ⟨fun hkeeps => absurd hclears hkeeps, .inr ⟨h.term ▸ hempty, ?_, h.input⟩⟩
    unfold AlacrittyEngine.activeScreen
    rw [h.term, hmain]
    rfl

theorem FeedSteps.moved (h : FeedSteps em (¬ ClearsHistory ·) e e')
    (hb : (history e.term).length ≤ capacity) : Moved capacity history e e' := by
  induction h with
  | refl => exact .refl hb
  | tail _ step ih =>
    rcases step.effect.1 with hstill | ⟨bytes, hkeeps, hfed⟩
    · exact ih.trans (.of_still law hstill ih.grown.bounded)
    · exact ih.trans ((hfed.moved law).1 hkeeps)

/-- One byte: only a reset, at a boundary, or the end of an erase with a digit 3 clears. -/
theorem processByte_moved (hm : PolicyInv m.policy) (hb : (history m.engine.term).length ≤ capacity)
    (b : UInt8) :
    Moved capacity history m.engine (m.processByte em b).2.engine ∨
      Emptied history (m.processByte em b).2.engine ∧
        ((m.processByte em b).2.policy.boundary = some .reset ∨
          collectsThree m.policy.state = true ∧ b = 0x4a) := by
  have htook : Took em m b (m.processByte em b) := processByte_took hm b
  have hok := hm.state
  generalize m.processByte em b = s at htook
  cases htook with
  | stays h | enters h => exact .inl (FeedSteps.moved law (h.engine.mono covers_keeps.plain) hb)
  | reset =>
    have hfed : Fed em [0x1b, 0x63] m.engine (m.engine.feedReset em [0x1b, 0x63]) := by
      obtain ⟨_, h⟩ := m.engine.feedReset_frame em [0x1b, 0x63]
      rw [h]
      exact ⟨rfl, rfl, rfl⟩
    exact (hfed.moved law).2.imp_right fun hempty => ⟨hempty, .inl rfl⟩
  | @csi s hs hfinal =>
    rw [hs] at hok ⊢
    by_cases herase : collectsThree (.csi s) = true ∧ b = 0x4a
    · obtain ⟨hthree, rfl⟩ := herase
      have honce : ((m.setState .ground).dispatchCsi em (s.push 0x4a)).2.engine = _ ∨ _ :=
        dispatchCsi_erase hok
      rcases honce with hsame | hself
      · rw [hsame]
        exact .inl (.refl hb)
      · have hfed : Fed em (s.push 0x4a).bytes m.engine
            ((m.setState .ground).dispatchCsi em (s.push 0x4a)).2.engine := by
          obtain ⟨_, h⟩ := m.engine.feedRaw_frame em (s.push 0x4a).bytes
          rw [hself]
          show Fed em _ _ (m.engine.feedRaw em _)
          rw [h]
          exact ⟨rfl, rfl, rfl⟩
        exact (hfed.moved law).2.imp_right fun hempty => ⟨hempty, .inr ⟨hthree, rfl⟩⟩
    · have hreplied : Replied em _ _ (m.setState .ground) _ :=
        dispatchCsi_replied covers_keeps hm.ground.marks hok (csi_keeps hok herase)
      exact .inl (FeedSteps.moved law hreplied.kept.engine hb)
  | @string s _ sawEscape finish =>
    have haside : Aside em (m.setState .ground) _ := .dispatchString { s with sawEscape } finish
    exact .inl (FeedSteps.moved law haside.kept.engine hb)

/-- The bytes of a round: only its last string may clear the history, and what is left of the
chunk still clears it only at its end. -/
theorem processUntilBoundary_moved {rest : List UInt8} (hm : PolicyInv m.policy)
    (hb : (history m.engine.term).length ≤ capacity) {collecting : Bool}
    (hc : collectsThree m.policy.state = true → collecting = true)
    (hlast : eraseLast collecting bytes = true)
    (h : Machine.processUntilBoundary em bytes m = (.ok rest, m')) :
    (Moved capacity history m.engine m'.engine ∨ Emptied history m'.engine) ∧
      ∃ collecting', eraseLast collecting' rest = true ∧
        (collectsThree m'.policy.state = true → collecting' = true) := by
  induction bytes generalizing m collecting with
  | nil =>
    cases h
    exact ⟨.inl (.refl hb), collecting, rfl, hc⟩
  | cons b bytes ih =>
    obtain ⟨herase, hnext⟩ := eraseLast_cons hlast
    have hmoved : Moved capacity history m.engine (m.processByte em b).2.engine ∨ _ :=
      processByte_moved law hm hb b
    have hadmitted : Admitted em m (m.processByte em b).2 := processByte_admitted hm b
    have hcollects : collectsThree (m.processByte em b).2.policy.state = true → _ :=
      processByte_collectsThree hm
    unfold Machine.processUntilBoundary at h
    split at h
    · cases h
    rename_i m₁ heq
    rw [heq] at hmoved hadmitted hcollects
    have hevents : Mute em m₁ m₁.collectEvents := .collectEvents
    have hstate : collectsThree m₁.collectEvents.policy.state = true →
        (!isCsiFinal b && (collecting || b == 0x33)) = true := fun h => by
      rw [hevents.policy] at h
      have := hcollects h
      grind
    replace hmoved : Moved capacity history m.engine m₁.collectEvents.engine ∨
        Emptied history m₁.collectEvents.engine ∧ (m₁.policy.boundary = some .reset ∨
          collectsThree m.policy.state = true ∧ b = 0x4a) := by
      refine hmoved.imp (fun h => ?_) fun h => ⟨(Emptied.locally law).run hevents.engine h.1, h.2⟩
      exact h.trans (FeedSteps.moved law hevents.kept.engine h.grown.bounded)
    dsimp only at h
    split at h
    · cases h
      exact ⟨hmoved.imp_right And.left, _, hnext, hstate⟩
    rename_i hboundary
    rcases hmoved with hmoved | ⟨hempty, hreset | ⟨hthree, hb⟩⟩
    · obtain ⟨hrest, hleft⟩ := ih hadmitted.collectEvents.policy hmoved.grown.bounded hstate hnext h
      exact ⟨hrest.imp_left hmoved.trans, hleft⟩
    · simp [hevents.policy, hreset] at hboundary
    · -- the erase is the last byte
      obtain rfl : bytes = [] := by_contra fun hne => herase hne ⟨hc hthree, hb⟩
      cases h
      exact ⟨.inr hempty, _, hnext, hstate⟩

end Engine

/-! ## What was published -/

section Model

variable (capacity : Nat) (history : Term R → List (Nat → Cell))

/-- History can be read: no batch is held, on the main screen. -/
structure TerminalModel.Readable (t : TerminalModel R) : Prop where
  live : t.synchronized = none
  main : t.engine.activeScreen = .main

/-- The history the model last counted, and what was published of it. -/
structure Based (seen : List (TerminalModel R)) (t : TerminalModel R)
    (base : List (Nat → Cell)) : Prop where
  rows : base.length = t.retainedHistoryRows
  seen : ∀ a ∈ seen, a.Readable → a.historyEpoch = t.historyEpoch → history a.engine.term <+: base
  grown : Grown capacity base (history t.engine.term)
  main : t.engine.activeScreen = .main → history t.engine.term = base

/-- Off the main screen, at an epoch under which nothing was published. -/
structure Fresh (seen : List (TerminalModel R)) (t : TerminalModel R) : Prop where
  seen : ∀ a ∈ seen, a.Readable → a.historyEpoch ≠ t.historyEpoch
  away : t.engine.activeScreen ≠ .main
  bounded : (history t.engine.term).length ≤ capacity

/-- The model after `seen` was published, whose epochs are at most `limit`. -/
structure Recorded (seen : List (TerminalModel R)) (limit : Nat) (t : TerminalModel R) : Prop where
  scrollback : t.scrollbackRows = capacity
  epochs : ∀ a ∈ seen, a.historyEpoch ≤ limit
  limit : limit ≤ t.revision
  epoch : t.historyEpoch ≤ t.revision
  anchored : (∃ base, Based capacity history seen t base) ∨ Fresh capacity history seen t

/-- Under one epoch the published histories only grow at their end. -/
structure Told (seen : List (TerminalModel R)) : Prop where
  grows : seen.Pairwise fun a b => a.Readable → b.Readable → a.historyEpoch = b.historyEpoch →
    history a.engine.term <+: history b.engine.term
  counted : ∀ a ∈ seen, a.Readable → (history a.engine.term).length = a.retainedHistoryRows

variable {capacity history} {seen : List (TerminalModel R)} {limit : Nat} {t t' : TerminalModel R}

theorem Recorded.bounded (h : Recorded capacity history seen limit t) :
    (history t.engine.term).length ≤ capacity := by
  rcases h.anchored with ⟨base, hbase⟩ | hfresh
  · exact hbase.grown.bounded
  · exact hfresh.bounded

theorem Recorded.publish (h : Recorded capacity history seen limit t) (hs : Told history seen) :
    Recorded capacity history (seen ++ [t]) t.revision t ∧ Told history (seen ++ [t]) := by
  have hmem : ∀ {P : TerminalModel R → Prop}, (∀ a ∈ seen, P a) → P t → ∀ a ∈ seen ++ [t], P a :=
    fun hseen ht a ha => by
      rcases List.mem_append.mp ha with ha | ha
      · exact hseen a ha
      · exact List.mem_singleton.mp ha ▸ ht
  have hepochs := hmem (fun a ha => (h.epochs a ha).trans h.limit) h.epoch
  have htold (hpre : t.Readable → ∀ a ∈ seen, a.Readable → a.historyEpoch = t.historyEpoch →
        history a.engine.term <+: history t.engine.term)
      (hcount : t.Readable → (history t.engine.term).length = t.retainedHistoryRows) :
      Told history (seen ++ [t]) := by
    refine ⟨List.pairwise_append.mpr ⟨hs.grows, List.pairwise_singleton _ _, fun a ha b hb => ?_⟩,
      hmem hs.counted hcount⟩
    obtain rfl := List.mem_singleton.mp hb
    exact fun hra hrb => hpre hrb a ha hra
  rcases h.anchored with ⟨base, hbase⟩ | hfresh
  · have hseen := hmem hbase.seen fun hr _ => (hbase.main hr.main).symm ▸ List.prefix_refl base
    refine ⟨⟨h.scrollback, hepochs, Nat.le_refl _, h.epoch,
      .inl ⟨base, hbase.rows, hseen, hbase.grown, hbase.main⟩⟩, htold ?_ ?_⟩ <;> intro hr <;>
      rw [hbase.main hr.main]
    exacts [hbase.seen, hbase.rows]
  · have haway : ¬ t.Readable := fun hr => hfresh.away hr.main
    exact ⟨⟨h.scrollback, hepochs, Nat.le_refl _, h.epoch,
      .inr ⟨hmem hfresh.seen fun hr => absurd hr haway, hfresh.away, hfresh.bounded⟩⟩,
      htold (fun hr => absurd hr haway) fun hr => absurd hr haway⟩

/-- `t'` has the history of `t`, counted alike, at no earlier revision. -/
structure Carries (history : Term R → List (Nat → Cell)) (t t' : TerminalModel R) : Prop where
  history : history t'.engine.term = history t.engine.term
  screen : t'.engine.activeScreen = t.engine.activeScreen
  scrollback : t'.scrollbackRows = t.scrollbackRows
  epoch : t'.historyEpoch = t.historyEpoch
  rows : t'.retainedHistoryRows = t.retainedHistoryRows
  revision : t.revision ≤ t'.revision

theorem Recorded.carry (h : Recorded capacity history seen limit t) (hc : Carries history t t') :
    Recorded capacity history seen limit t' where
  scrollback := hc.scrollback.trans h.scrollback
  epochs := h.epochs
  limit := h.limit.trans hc.revision
  epoch := hc.epoch ▸ h.epoch.trans hc.revision
  anchored := by
    rcases h.anchored with ⟨base, hbase⟩ | hfresh
    · refine .inl ⟨base, ?_⟩
      exact ⟨hbase.rows.trans hc.rows.symm, hc.epoch ▸ hbase.seen, hc.history ▸ hbase.grown,
        hc.history ▸ hc.screen ▸ hbase.main⟩
    · exact .inr ⟨hc.epoch ▸ hfresh.seen, hc.screen ▸ hfresh.away, hc.history ▸ hfresh.bounded⟩

theorem commitMetadata_away (h : t.engine.gridInput = false ∨ t.engine.activeScreen ≠ .main) :
    t.commitMetadata =
      { t with engine := { t.engine with colors := t.engine.colors.commit t.revision } } := by
  unfold TerminalModel.commitMetadata
  dsimp only
  split
  · rename_i hinput
    have haway := h.resolve_left (by simp [hinput])
    unfold TerminalModel.refreshHistoryEpochAfterIngest
    rw [if_pos (by exact haway)]
  · rfl

/-- The rows kept and whether the count shows that they may have changed. -/
theorem commitMetadata_main (hinput : t.engine.gridInput = true)
    (hmain : t.engine.activeScreen = .main) :
    ∃ epoch, t.commitMetadata = { t with
        engine := { t.engine with colors := t.engine.colors.commit t.revision }
        historyEpoch := epoch
        retainedHistoryRows := t.engine.term.historySize } ∧
      (epoch = t.revision ∨ epoch = t.historyEpoch ∧
        t.retainedHistoryRows ≤ t.engine.term.historySize ∧
        (t.engine.term.historySize = t.scrollbackRows → t.scrollbackRows = 0)) := by
  unfold TerminalModel.commitMetadata
  dsimp only
  rw [if_pos hinput]
  unfold TerminalModel.refreshHistoryEpochAfterIngest
  rw [if_neg (by exact not_not.mpr hmain)]
  refine ⟨_, rfl, ?_⟩
  dsimp only
  split
  · exact .inl rfl
  · rename_i hkeep
    simp only [not_or, Nat.not_lt, Bool.and_eq_true, decide_eq_true_eq, beq_iff_eq, not_and,
      gt_iff_lt] at hkeep
    refine .inr ⟨rfl, hkeep.1, fun hfull => ?_⟩
    by_contra hpos
    exact hkeep.2 ⟨Nat.pos_of_ne_zero hpos, hfull⟩ hkeep.1

variable (law : FifoHistory em capacity history)
include law

theorem Recorded.commit (h : Recorded capacity history seen limit t)
    (hmoved : Moved capacity history { t.engine with gridInput := false } t'.engine ∨
      Emptied history t'.engine)
    (hsame : t'.scrollbackRows = t.scrollbackRows ∧ t'.historyEpoch = t.historyEpoch ∧
      t'.retainedHistoryRows = t.retainedHistoryRows)
    (hr : t.revision ≤ t'.revision) (hlimit : limit < t'.revision) :
    Recorded capacity history seen limit t'.commitMetadata := by
  obtain ⟨hscrollback, hepoch, hrows⟩ := hsame
  by_cases haway : t'.engine.gridInput = false ∨ t'.engine.activeScreen ≠ .main
  · -- nothing is counted: the history did not move, or it is out of sight
    have hmoved : Moved capacity history { t.engine with gridInput := false } t'.engine :=
      hmoved.resolve_right fun hempty => by
        rcases haway with hinput | hscreen
        · simp [hempty.input] at hinput
        · exact hscreen hempty.main
    rw [commitMetadata_away haway]
    by_cases hscreen : t'.engine.activeScreen = .main
    · obtain ⟨-, hhistory, hsame⟩ := hmoved.still (haway.resolve_right (not_not.mpr hscreen))
      exact h.carry ⟨hhistory, hsame, hscrollback, hepoch, hrows, hr⟩
    · refine ⟨hscrollback.trans h.scrollback, h.epochs, hlimit.le, hepoch ▸ h.epoch.trans hr, ?_⟩
      rcases h.anchored with ⟨base, hbase⟩ | hfresh
      · exact .inl ⟨base, hbase.rows.trans hrows.symm, hepoch ▸ hbase.seen,
          hbase.grown.trans hmoved.grown, fun hmain => absurd hmain hscreen⟩
      · exact .inr ⟨hepoch ▸ hfresh.seen, hscreen, hmoved.grown.bounded⟩
  · -- the history is counted again
    obtain ⟨hinput, hmain⟩ := not_or.mp haway
    replace hinput : t'.engine.gridInput = true := by simpa using hinput
    replace hmain : t'.engine.activeScreen = .main := not_not.mp hmain
    obtain ⟨epoch, hcommit, hkeep⟩ := commitMetadata_main hinput hmain
    have hsize : t'.engine.term.historySize = (history t'.engine.term).length :=
      law.size _ (by simpa [AlacrittyEngine.activeScreen] using hmain)
    have hbounded : (history t'.engine.term).length ≤ capacity := by
      rcases hmoved with hmoved | hempty
      · exact hmoved.grown.bounded
      · simp [hempty.empty]
    rw [hcommit]
    refine ⟨hscrollback.trans h.scrollback, h.epochs, hlimit.le, ?_,
      .inl ⟨history t'.engine.term, hsize.symm, fun a ha hread he => ?_, .refl hbounded,
        fun _ => rfl⟩⟩
    · rcases hkeep with rfl | ⟨rfl, -⟩
      · exact Nat.le_refl _
      · exact hepoch ▸ h.epoch.trans hr
    rcases hkeep with rfl | ⟨rfl, hrows', hfull⟩
    · -- a new epoch, later than every published one
      replace he : a.historyEpoch = t'.revision := he
      have := h.epochs a ha
      omega
    rw [hsize, hrows] at hrows'
    rw [hsize, hscrollback, h.scrollback] at hfull
    rcases h.anchored with ⟨base, hbase⟩ | hfresh
    · have hpre := hbase.seen a ha hread (he.trans hepoch)
      have hnil : t.retainedHistoryRows = 0 → base <+: history t'.engine.term := fun hzero => by
        rw [List.length_eq_zero_iff.mp (hbase.rows.trans hzero)]
        exact List.nil_prefix
      refine hpre.trans ?_
      rcases hmoved with hmoved | hempty
      · rcases (hbase.grown.trans hmoved.grown).kept with hkept | hcap
        · exact hkept
        · exact hnil (by have := hfull hcap; omega)
      · exact hnil (by simpa [hempty.empty] using hrows')
    · exact absurd (he.trans hepoch) (hfresh.seen a ha hread)

end Model

/-! ## One call -/

section Call

variable (capacity : Nat) (history : Term R → List (Nat → Cell))

/-- What was published before a call and during it, and the model since. -/
structure Logged (seen : List (TerminalModel R)) (limit : Nat) (g : Ingest R) : Prop where
  told : Told history (seen ++ g.observed)
  recorded : Recorded capacity history (seen ++ g.observed) limit g.model

variable {capacity history} {seen : List (TerminalModel R)} {limit : Nat} {g g' : Ingest R}

theorem Logged.publish (h : Logged capacity history seen limit g) :
    Logged capacity history seen g.model.revision g.publish := by
  obtain ⟨hrecorded, htold⟩ := h.recorded.publish h.told
  rw [List.append_assoc] at hrecorded htold
  exact ⟨htold, hrecorded⟩

theorem Logged.carry (h : Logged capacity history seen limit g) (ho : g'.observed = g.observed)
    (hc : Carries history g.model g'.model) : Logged capacity history seen limit g' :=
  ⟨ho ▸ h.told, ho ▸ h.recorded.carry hc⟩

theorem Logged.release (h : Logged capacity history seen limit g) :
    Logged capacity history seen g.model.revision
      (g.setModel g.model.finishSynchronizedOutput.2).publish := by
  have hcarry : Logged capacity history seen limit
      (g.setModel g.model.finishSynchronizedOutput.2) :=
    h.carry rfl ⟨rfl, rfl, rfl, rfl, rfl, Nat.le_refl _⟩
  exact hcarry.publish

theorem Logged.expire (h : Logged capacity history seen limit g) (clock : Nat → Nat) :
    ∃ limit, Logged capacity history seen limit (g.expire clock) := by
  rcases expire_cases g clock with he | he <;> rw [he]
  · exact ⟨limit, h.told, h.recorded⟩
  · exact ⟨_, Logged.release (g := { g with tick := g.tick + 1 }) ⟨h.told, h.recorded⟩⟩

variable (law : FifoHistory em capacity history)
include law

theorem Logged.settled (h : Logged capacity history seen limit g) {m : Machine R}
    (hmoved : Moved capacity history g.machine.engine m.engine ∨ Emptied history m.engine) :
    Logged capacity history seen limit (g.settled (g.model.revision + 1) m) := by
  have hcommit : Recorded capacity history _ limit
      (g.install (g.model.revision + 1) m).model.commitMetadata :=
    h.recorded.commit law hmoved ⟨rfl, rfl, rfl⟩ (Nat.le_succ _)
      (Nat.lt_succ_of_le h.recorded.limit)
  exact ⟨h.told, hcommit.carry ⟨rfl, rfl, rfl, rfl, rfl, Nat.le_refl _⟩⟩

theorem Logged.siblings (h : Logged capacity history seen limit g) (hlimit : limit < g.model.revision)
    {modes : List Nat} (hfit : ModesFit modes) (enabled : Bool) :
    Logged capacity history seen limit (g.applySiblings em enabled modes) := by
  have hsteps : FeedSteps em (¬ ClearsHistory ·) { g.model.engine with gridInput := false }
      (applyPrivateModes em modes enabled { g.model.engine with gridInput := false }).takeEvents.2 :=
    (applyPrivateModes_steps covers_keeps hfit enabled _).trans (takeEvents_steps _)
  exact ⟨h.told, h.recorded.commit law (.inl (FeedSteps.moved law hsteps h.recorded.bounded))
    ⟨rfl, rfl, rfl⟩ (Nat.le_refl _) hlimit⟩

theorem Logged.boundary (h : Logged capacity history seen limit g) (hlimit : limit < g.model.revision)
    (settled : ∀ r, g.model.engine.colors.commit r = g.model.engine.colors) {clock : Nat → Nat}
    {boundary : Option PresentationBoundary} {r : Except TerminalError Unit × Ingest R}
    (hr : Bounded em clock g boundary r) (hb : BoundaryOk boundary) :
    ∃ limit, Logged capacity history seen limit r.2 := by
  have hfrozen : Logged capacity history seen g.model.revision (g.frozen clock) :=
    h.publish.carry rfl ⟨rfl, rfl, rfl, rfl, rfl, Nat.le_refl _⟩
  cases hr with
  | absent => exact ⟨limit, h⟩
  | reset => exact ⟨_, h.release⟩
  | exhausted => exact ⟨_, hfrozen⟩
  | begins =>
    refine ⟨_, hfrozen.carry rfl ?_⟩
    rw [applySiblings_nil (g := g.frozen clock) settled]
    exact ⟨rfl, rfl, rfl, rfl, rfl, Nat.le_refl _⟩
  | siblings _ modes =>
    have hnext : Logged capacity history seen g.model.revision ((g.frozen clock).setModel
        { (g.frozen clock).model with revision := g.model.revision + 1 }) :=
      hfrozen.carry rfl ⟨rfl, rfl, rfl, rfl, rfl, Nat.le_succ _⟩
    exact ⟨_, hnext.siblings law (Nat.lt_succ_self _) hb true⟩
  | held => exact ⟨_, h.siblings law hlimit hb true⟩
  | ends => exact ⟨_, (h.siblings law hlimit hb false).release⟩

/-- A call under way over a chunk that clears the history only at its end. -/
structure Logging (capacity : Nat) (history : Term R → List (Nat → Cell))
    (seen : List (TerminalModel R)) (bytes : List UInt8) (g : Ingest R) : Prop where
  logged : ∃ limit, Logged capacity history seen limit g
  inv : ModelInv (fun _ => True) g.model
  last : ∃ collecting, eraseLast collecting bytes = true ∧
    (collectsThree g.model.ingress.state = true → collecting = true)

theorem Logging.round {clock : Nat → Nat} {bytes : List UInt8}
    {r : Except TerminalError (List UInt8) × Ingest R} (h : Logging capacity history seen bytes g)
    (hr : Rounded em clock g bytes r) :
    AfterRound (Logging capacity history seen)
      (fun res g' => Told history (seen ++ g'.observed) ∧
        (res = .ok () → ∃ limit, Logged capacity history seen limit g')) r := by
  obtain ⟨⟨_, hlogged⟩, hi, collecting, hlast, hc⟩ := h
  obtain ⟨limit, hexpire⟩ := hlogged.expire clock
  have hnext := (hr.inv trivial_law hi).1
  have hinv := (hi.expire (clock g.tick)).1
  rw [← expire_model] at hinv
  have hpolicy : PolicyInv (g.expire clock).machine.policy := hinv.sound.policy.toPolicyInv
  have hstate := (expire_silent g clock).state
  have hsettled : ∀ {rest m res}, Machine.processUntilBoundary em bytes (g.expire clock).machine =
      (.ok rest, m) → Bounded em clock ((g.expire clock).settled
        ((g.expire clock).model.revision + 1) m) m.policy.boundary res →
      (∃ limit, Logged capacity history seen limit res.2) ∧
        ∃ collecting, eraseLast collecting rest = true ∧
          (collectsThree m.policy.state = true → collecting = true) := fun {rest m res} hp hb => by
    obtain ⟨hmoved, hrest⟩ := processUntilBoundary_moved law hpolicy hexpire.recorded.bounded
      (fun h => hc (hstate ▸ h)) hlast hp
    have hadmitted : Admitted em (g.expire clock).machine _ := processUntilBoundary_admitted bytes hpolicy
    rw [hp] at hadmitted
    have hrevision : ((g.expire clock).settled ((g.expire clock).model.revision + 1) m).model.revision =
        (g.expire clock).model.revision + 1 := commitMetadata_revision _
    refine ⟨(hexpire.settled law hmoved).boundary law ?_
      (commitMetadata_settled _) hb hadmitted.policy.marks.boundary, hrest⟩
    rw [hrevision]
    exact Nat.lt_succ_of_le hexpire.recorded.limit
  cases hr with
  | exhausted => exact ⟨hexpire.told, nofun⟩
  | overflow _ => exact ⟨hexpire.told, nofun⟩
  | failed hp hb =>
    obtain ⟨limit, hlogged⟩ := (hsettled hp (.of_eq hb)).1
    exact ⟨hlogged.told, nofun⟩
  | passed hp hb =>
    obtain ⟨hlogged, hrest⟩ := hsettled hp (.of_eq hb)
    refine ⟨hlogged, hnext, ?_⟩
    rwa [(boundary_silent hb).2.1]

theorem Logged.ingest {t : TerminalModel R} (h : Recorded capacity history seen limit t)
    (hs : Told history seen) (hi : ModelInv (fun _ => True) t) (clock : Nat → Nat)
    {bytes : List UInt8} (hlast : eraseLast (collectsThree t.ingress.state) bytes = true) :
    Told history (seen ++ (t.ingestObserving em clock bytes).2.observed) ∧
      ∀ u, (t.ingestObserving em clock bytes).1 = .ok u →
        ∃ limit, Logged capacity history seen limit (t.ingestObserving em clock bytes).2 := by
  have hstart : Logged capacity history seen limit { model := t } :=
    ⟨by simpa using hs, by simpa using h⟩
  obtain ⟨htold, hlogged⟩ := rounds_rule (K := Logging capacity history seen)
    (fun h => h.logged.elim fun limit h => ⟨h.told, fun _ => ⟨limit, h⟩⟩)
    (fun h hr => h.round law (.of_eq hr)) bytes.length ⟨⟨limit, hstart⟩, hi, _, hlast, id⟩
  have hingested := ingestObserving_ingested em t clock bytes
  rcases hingested.shown with ho | ⟨hok, -, ho⟩ <;> rw [ho]
  · exact ⟨htold, fun u hu => hlogged (hingested.update u hu).1⟩
  · obtain ⟨limit, hlogged⟩ := hlogged hok
    exact ⟨hlogged.publish.told, fun _ _ => ⟨_, hlogged.publish⟩⟩

end Call

/-! ## Runs -/

section Run

variable (em) in
/-- What readers may see of a run: the models shown during a command and the one after it. A
chunk that fails ends the run. -/
def TerminalModel.published (t : TerminalModel R) : List ModelOp → List (TerminalModel R)
  | [] => []
  | .ingest clock bytes :: ops =>
    match t.ingestObserving em clock bytes with
    | (.ok _, g) => g.observed ++ g.model :: g.model.published ops
    | (.error _, g) => g.observed
  | op :: ops => t.apply em op :: (t.apply em op).published ops

variable (em) in
/-- Every chunk clears the history at most at its end, counting a sequence it goes on with. -/
def ErasesLast (t : TerminalModel R) : List ModelOp → Prop
  | [] => True
  | .ingest clock bytes :: ops => eraseLast (collectsThree t.ingress.state) bytes = true ∧
      ErasesLast (t.ingest em clock bytes).2 ops
  | op :: ops => ErasesLast (t.apply em op) ops

def TerminalModel.historyLine (t : TerminalModel R) (ordinal : Nat) : List Cell :=
  (List.range t.size.columns).map
    (t.engine.term.cell ((ordinal : Int) - t.retainedHistoryRows))

variable {capacity : Nat} {history : Term R → List (Nat → Cell)}
  {seen : List (TerminalModel R)} {limit : Nat} {t : TerminalModel R}
  (law : FifoHistory em capacity history)
include law

theorem Recorded.resize (h : Recorded capacity history seen limit t) (size : TerminalSize) :
    Recorded capacity history seen limit (t.resize em size).2 := by
  unfold TerminalModel.resize
  split
  · exact h
  rename_i hnext
  obtain rfl := preflightResize_ok hnext
  have hbounded : (history (t.engine.resize em size).term).length ≤ capacity := by
    obtain ⟨_, _, _, hr⟩ := t.engine.resize_frame em size
    rw [hr]
    exact law.resize _ _
  have hnew : ∀ a ∈ seen, a.historyEpoch ≠ t.revision + 1 := fun a ha => by
    have := h.epochs a ha
    have := h.limit
    omega
  refine ⟨h.scrollback, h.epochs, Nat.le_succ_of_le h.limit, Nat.le_refl _, ?_⟩
  by_cases hmain : (t.engine.resize em size).activeScreen = .main
  · refine .inl ⟨history (t.engine.resize em size).term, ?_,
      fun a ha _ he => absurd he (hnew a ha), .refl hbounded, fun _ => rfl⟩
    have hsize := law.size (t.engine.resize em size).term
      (by simpa [AlacrittyEngine.activeScreen] using hmain)
    simp [TerminalModel.finishSynchronizedOutput, hmain, hsize]
  · exact .inr ⟨fun a ha _ => hnew a ha, hmain, hbounded⟩

theorem Recorded.apply (h : Recorded capacity history seen limit t) {op : ModelOp}
    (hop : ∀ clock bytes, op ≠ .ingest clock bytes) :
    Recorded capacity history seen limit (t.apply em op) := by
  cases op with
  | ingest clock bytes => exact absurd rfl (hop clock bytes)
  | resize size => exact h.resize law size
  | updateBaseColors base =>
    rcases updateBaseColors_cases t base with hu | ⟨-, hu⟩ <;> simp only [TerminalModel.apply, hu]
    · exact h
    · exact h.carry ⟨rfl, rfl, rfl, rfl, rfl, Nat.le_succ _⟩
  | expire now =>
    rcases expireSynchronizedOutput_cases t now with he | he <;> simp only [TerminalModel.apply, he]
    · exact h
    · exact h.carry ⟨rfl, rfl, rfl, rfl, rfl, Nat.le_refl _⟩
  | finish => exact h.carry ⟨rfl, rfl, rfl, rfl, rfl, Nat.le_refl _⟩

omit law in
theorem published_cons {op : ModelOp} (hop : ∀ clock bytes, op ≠ .ingest clock bytes)
    (ops : List ModelOp) :
    t.published em (op :: ops) = t.apply em op :: (t.apply em op).published em ops ∧
      (ErasesLast em t (op :: ops) → ErasesLast em (t.apply em op) ops) := by
  cases op with
  | ingest clock bytes => exact absurd rfl (hop clock bytes)
  | _ =>
    rw [TerminalModel.published, ErasesLast]
    · exact ⟨rfl, id⟩
    all_goals exact hop

theorem Told.published (h : Recorded capacity history seen limit t) (hs : Told history seen)
    (hi : ModelInv (fun _ => True) t) (ops : List ModelOp) (herase : ErasesLast em t ops) :
    Told history (seen ++ t.published em ops) := by
  induction ops generalizing seen limit t with
  | nil => simpa [TerminalModel.published] using hs
  | cons op ops ih =>
    have hnext : ∀ {limit seen t}, Recorded capacity history seen limit t → Told history seen →
        ModelInv (fun _ => True) t → ErasesLast em t ops →
        Told history (seen ++ t :: t.published em ops) := fun {_ _ t} h hs hi herase => by
      obtain ⟨hrecorded, htold⟩ := h.publish hs
      simpa using ih hrecorded htold hi herase
    have hinv : ModelInv _ (t.apply em op) := (hi.apply trivial_law (by cases op <;> trivial)).1
    by_cases hop : ∃ clock bytes, op = .ingest clock bytes
    · obtain ⟨clock, bytes, rfl⟩ := hop
      obtain ⟨hlast, herase⟩ := herase
      obtain ⟨htold, hok⟩ := Logged.ingest law h hs hi clock hlast
      replace hinv : ModelInv _ (t.ingestObserving em clock bytes).2.model := hinv
      replace herase : ErasesLast em (t.ingestObserving em clock bytes).2.model ops := herase
      unfold TerminalModel.published
      split <;> rename_i hobserve <;> rw [hobserve] at htold hok hinv herase
      · obtain ⟨limit, hlogged⟩ := hok _ rfl
        rw [← List.append_assoc]
        exact hnext hlogged.recorded hlogged.told hinv herase
      · exact htold
    · have hop' : ∀ clock bytes, op ≠ .ingest clock bytes := fun c b he => hop ⟨c, b, he⟩
      obtain ⟨hpublished, herases⟩ := published_cons (t := t) hop' ops
      rw [hpublished]
      exact hnext (h.apply law hop') hs hinv (herases herase)

theorem Told.line (h : Told history seen) {a : TerminalModel R} (ha : a ∈ seen) (hr : a.Readable)
    {ordinal : Nat} (ho : ordinal < a.retainedHistoryRows) :
    ∃ line, (history a.engine.term)[ordinal]? = some line ∧
      a.historyLine ordinal = (List.range a.size.columns).map line := by
  have hcount := h.counted a ha hr
  have hmain : a.engine.term.mode.altScreen = false := by
    simpa [AlacrittyEngine.activeScreen] using hr.main
  obtain ⟨line, hget⟩ : ∃ line, (history a.engine.term)[ordinal]? = some line :=
    ⟨_, List.getElem?_eq_getElem (hcount ▸ ho)⟩
  refine ⟨line, hget, ?_⟩
  have hcell := law.lines _ _ _ hmain hget
  rw [law.size _ hmain, hcount] at hcell
  rw [TerminalModel.historyLine, hcell]

/-- Two published histories of one epoch agree on the lines both retain. -/
theorem Told.agree (h : Told history seen) {a b : TerminalModel R} (ha : a ∈ seen) (hb : b ∈ seen)
    (hra : a.Readable) (hrb : b.Readable) (he : a.historyEpoch = b.historyEpoch)
    (hw : a.size.columns = b.size.columns) {ordinal : Nat} (hoa : ordinal < a.retainedHistoryRows)
    (hob : ordinal < b.retainedHistoryRows) : a.historyLine ordinal = b.historyLine ordinal := by
  obtain ⟨line, hline, hal⟩ := h.line law ha hra hoa
  obtain ⟨line', hline', hbl⟩ := h.line law hb hrb hob
  have hpre : history a.engine.term <+: history b.engine.term ∨
      history b.engine.term <+: history a.engine.term := by
    have hgrows := List.pairwise_iff_getElem.mp h.grows
    obtain ⟨i, hi, rfl⟩ := List.getElem_of_mem ha
    obtain ⟨j, hj, rfl⟩ := List.getElem_of_mem hb
    rcases Nat.lt_trichotomy i j with hij | rfl | hij
    · exact .inl (hgrows i j hi hj hij hra hrb he)
    · exact .inl (List.prefix_refl _)
    · exact .inr (hgrows j i hj hi hij hrb hra he.symm)
  have hsame : line = line' := by
    rcases hpre with ⟨more, hmore⟩ | ⟨more, hmore⟩
    · rw [← hmore, List.getElem?_append_left (List.getElem?_eq_some_iff.mp hline).1, hline] at hline'
      exact Option.some.inj hline'
    · rw [← hmore, List.getElem?_append_left (List.getElem?_eq_some_iff.mp hline').1, hline'] at hline
      exact (Option.some.inj hline).symm
  rw [hal, hbl, hw, hsame]

omit law in
theorem new_term (size : TerminalSize) (rows : Nat) :
    (AlacrittyEngine.new em size rows).term =
      (em.advance (em.init size rows) AlacrittyEngine.alternateScrollOff).1 := by
  obtain ⟨_, hraw⟩ := (AlacrittyEngine.blank em size rows).feedRaw_frame em
    AlacrittyEngine.alternateScrollOff
  unfold AlacrittyEngine.new AlacrittyEngine.takeEvents
  rw [hraw]
  rfl

theorem Recorded.new {size : TerminalSize} (h : TerminalModel.new em size capacity = .ok t) :
    Recorded capacity history [] 0 t := by
  obtain ⟨-, hrevision, -, hengine⟩ := new_ingress h
  have hempty : history (AlacrittyEngine.new em size capacity).term = [] := by
    rw [new_term, law.init]
  unfold TerminalModel.new at h
  split at h
  · cases h
  · obtain rfl := Except.ok.inj h
    refine ⟨rfl, by simp, Nat.le_refl _, Nat.le_refl _, .inl ⟨[], rfl, by simp, ?_, fun _ => hempty⟩⟩
    dsimp only
    rw [hempty]
    exact .refl (Nat.zero_le _)

end Run

/-! ## A scrolling emulator -/

/-- `typewriter` with a line feed that scrolls and an erasure of the saved lines. -/
def scroller (capacity : Nat) : Emulator Unit where
  toVendor := typewriter.toVendor
  init := typewriter.init
  advance := fun t bytes =>
    if bytes = [0x0a] then
      let cell := fun line => if line < 0 then t.cell (line + 1) else fun _ => {}
      ({ t with historySize := min capacity (t.historySize + 1), cell }, [])
    else if bytes = [0x1b, 0x5b, 0x33, 0x4a] ∧ t.mode.altScreen = false then
      ({ t with historySize := 0 }, [])
    else
      let trimmed := { t with historySize := min capacity t.historySize }
      match bytes with
      | [b] =>
        let written : Cell := { c := Char.ofNat b.toNat }
        let cell := fun line column => if line = 0 ∧ column = 0 then written else t.cell line column
        ({ trimmed with cell }, [])
      | _ => (trimmed, [])
  resize := fun t size =>
    { t with
      screenLines := size.rows, columns := size.columns, historySize := min capacity t.historySize }

/-- The lines above the viewport, as the grid has them. -/
def scrolledLines (t : Term R) : List (Nat → Cell) :=
  (List.range t.historySize).map fun i : Nat => t.cell ((i : Int) - t.historySize)

@[simp] theorem scrolledLines_length (t : Term R) : (scrolledLines t).length = t.historySize := by
  simp [scrolledLines]

theorem scrolledLines_append {t t' : Term R} {capacity : Nat} {lines : List (Nat → Cell)}
    (hsize : t'.historySize = min capacity (t.historySize + lines.length))
    (hold : ∀ i : Nat, i < t.historySize + lines.length →
      some (t'.cell ((i : Int) - (t.historySize + lines.length : Nat))) =
        (scrolledLines t ++ lines)[i]?) :
    scrolledLines t' = boundedAppend capacity (scrolledLines t) lines := by
  apply List.ext_getElem?
  intro i
  unfold boundedAppend
  rw [List.getElem?_drop, List.length_append, scrolledLines_length]
  by_cases hi : i < t'.historySize
  · rw [← hold _ (by omega)]
    simp only [scrolledLines, List.getElem?_map, List.getElem?_range hi, Option.map_some]
    congr 2
    omega
  · rw [List.getElem?_eq_none (by simpa using hi), List.getElem?_eq_none]
    simp only [List.length_append, scrolledLines_length]
    omega

theorem scrolledLines_getElem? (t : Term R) {i : Nat} (h : i < t.historySize) :
    (scrolledLines t)[i]? = some (t.cell ((i : Int) - t.historySize)) := by
  simp [scrolledLines, h]

theorem scroller_fifo (capacity : Nat) :
    FifoHistory (scroller capacity) capacity scrolledLines where
  init := fun size => by simp [scroller, typewriter, scrolledLines, AlacrittyEngine.alternateScrollOff]
  advance := fun t bytes => by
    have hkept (t' : Term Unit) (hsize : t'.historySize = min capacity t.historySize)
        (hcell : ∀ line < 0, t'.cell line = t.cell line) :
        scrolledLines t' = boundedAppend capacity (scrolledLines t) [] := by
      refine scrolledLines_append (by simpa using hsize) fun i hi => ?_
      simp only [List.length_nil, Nat.add_zero, List.append_nil] at hi ⊢
      rw [hcell _ (by omega), scrolledLines_getElem? t hi]
    unfold scroller
    dsimp only
    split
    · refine .inl ⟨[t.cell 0], scrolledLines_append rfl fun i hi => ?_⟩
      simp only [List.length_singleton] at hi ⊢
      rw [if_pos (by omega)]
      by_cases hlast : i < t.historySize
      · rw [List.getElem?_append_left (by simpa using hlast), scrolledLines_getElem? t hlast]
        congr 2
        omega
      · obtain rfl : i = t.historySize := by omega
        rw [List.getElem?_append_right (by simp)]
        simp
    · split
      · rename_i hclear
        exact .inr ⟨by rw [hclear.1]; decide, rfl, hclear.2⟩
      · refine .inl ⟨[], ?_⟩
        split
        · refine hkept _ rfl fun line hline => ?_
          funext column
          exact if_neg fun h => by omega
        · exact hkept _ rfl fun _ _ => rfl
  resize := fun t size => by simp [scroller]
  cursor := fun t cursor => rfl
  size := fun t _ => by simp
  lines := fun t i line _ h => by
    obtain ⟨hi, -⟩ := List.getElem?_eq_some_iff.mp h
    rw [scrolledLines_getElem? t (by simpa using hi)] at h
    exact Option.some.inj h

theorem mem_published_ingest {t a : TerminalModel R} {clock : Nat → Nat} {bytes : List UInt8}
    (h : (t.ingest em clock bytes).1.isOk = true) {ops : List ModelOp}
    (ha : a ∈ (t.ingest em clock bytes).2 :: (t.ingest em clock bytes).2.published em ops) :
    a ∈ t.published em (.ingest clock bytes :: ops) := by
  unfold TerminalModel.ingest at h ha
  unfold TerminalModel.published
  split <;> rename_i hobserve <;> rw [hobserve] at h ha
  · exact List.mem_append_right _ ha
  · cases h

def scrollerStart : TerminalModel Unit where
  engine := .new (scroller 10) ⟨24, 80⟩ 10
  ingress := {}
  revision := 0
  scrollbackRows := 10
  historyEpoch := 0
  retainedHistoryRows := 0
  synchronized := none

/-- `a LF`, then another chunk. -/
def lineThen (bytes : List UInt8) : List ModelOp := [.ingest id [0x61, 0x0a], .ingest id bytes]

def afterLine : TerminalModel Unit := (scrollerStart.ingest (scroller 10) id [0x61, 0x0a]).2

def afterLineThen (bytes : List UInt8) : TerminalModel Unit :=
  (afterLine.ingest (scroller 10) id bytes).2

theorem lineThen_published {bytes : List UInt8}
    (h : (afterLine.ingest (scroller 10) id bytes).1.isOk = true) :
    afterLine ∈ scrollerStart :: scrollerStart.published (scroller 10) (lineThen bytes) ∧
      afterLineThen bytes ∈
        scrollerStart :: scrollerStart.published (scroller 10) (lineThen bytes) := by
  have hfirst : (scrollerStart.ingest (scroller 10) id [0x61, 0x0a]).1.isOk = true := by
    decide +kernel
  exact ⟨List.mem_cons_of_mem _ (mem_published_ingest hfirst List.mem_cons_self),
    List.mem_cons_of_mem _ (mem_published_ingest hfirst (List.mem_cons_of_mem _
      (mem_published_ingest h List.mem_cons_self)))⟩

/-! ## The epoch's guarantee -/

/-- The history of an epoch is immutable: whatever two published states with one epoch and width
both retain is the same, when no chunk clears the history before its last byte. -/
theorem history_epoch_identifies_lines (em : Emulator R) (capacity : Nat)
    (history : Term R → List (Nat → Cell)) (law : FifoHistory em capacity history)
    (size : TerminalSize) (t : TerminalModel R) (hnew : TerminalModel.new em size capacity = .ok t)
    (ops : List ModelOp) (herase : ErasesLast em t ops) :
    ∀ a ∈ t :: t.published em ops, ∀ b ∈ t :: t.published em ops, a.Readable → b.Readable →
      a.historyEpoch = b.historyEpoch → a.size.columns = b.size.columns →
      ∀ ordinal, ordinal < a.retainedHistoryRows → ordinal < b.retainedHistoryRows →
        a.historyLine ordinal = b.historyLine ordinal := by
  have hinv : ModelInv (fun _ => True) t := .new trivial_law hnew trivial
  obtain ⟨hrecorded, htold⟩ := (Recorded.new law hnew).publish ⟨List.Pairwise.nil, by simp⟩
  have hall := Told.published law hrecorded htold hinv ops herase
  exact fun a ha b hb hra hrb he hw ordinal => hall.agree law ha hb hra hrb he hw

/-- `b LF` leaves the line `a` where it was. -/
theorem history_epoch_identifies_lines_scroller :
    TerminalModel.new (scroller 10) ⟨24, 80⟩ 10 = .ok scrollerStart ∧
      ErasesLast (scroller 10) scrollerStart (lineThen [0x62, 0x0a]) ∧
      (afterLineThen [0x62, 0x0a]).retainedHistoryRows = 2 ∧
      afterLine.historyLine 0 = (afterLineThen [0x62, 0x0a]).historyLine 0 :=
  have herase : ErasesLast (scroller 10) scrollerStart (lineThen [0x62, 0x0a]) :=
    ⟨by decide +kernel, by decide +kernel, trivial⟩
  have hok : (afterLine.ingest (scroller 10) id [0x62, 0x0a]).1.isOk = true := by decide +kernel
  have hshown := lineThen_published hok
  ⟨rfl, herase, by decide +kernel, history_epoch_identifies_lines (scroller 10) 10 scrolledLines
    (scroller_fifo 10) ⟨24, 80⟩ scrollerStart rfl _ herase _ hshown.1 _ hshown.2
    ⟨by decide +kernel, by decide +kernel⟩ ⟨by decide +kernel, by decide +kernel⟩
    (by decide +kernel) (by decide +kernel) 0 (by decide +kernel) (by decide +kernel)⟩

/-- `ESC [ 3 J b LF`. -/
def replaceLine : List UInt8 := [0x1b, 0x5b, 0x33, 0x4a, 0x62, 0x0a]

/-- A chunk that erases the saved lines and scrolls as many new ones keeps the epoch. -/
theorem erased_history_keeps_epoch :
    FifoHistory (scroller 10) 10 scrolledLines ∧
    TerminalModel.new (scroller 10) ⟨24, 80⟩ 10 = .ok scrollerStart ∧
    ∃ a ∈ scrollerStart :: scrollerStart.published (scroller 10) (lineThen replaceLine),
    ∃ b ∈ scrollerStart :: scrollerStart.published (scroller 10) (lineThen replaceLine),
      a.Readable ∧ b.Readable ∧ a.historyEpoch = b.historyEpoch ∧
        a.size.columns = b.size.columns ∧ 0 < a.retainedHistoryRows ∧
        0 < b.retainedHistoryRows ∧ a.historyLine 0 ≠ b.historyLine 0 := by
  have hok : (afterLine.ingest (scroller 10) id replaceLine).1.isOk = true := by decide +kernel
  have hshown := lineThen_published hok
  refine ⟨scroller_fifo 10, rfl, _, hshown.1, _, hshown.2, 
    ⟨by decide +kernel, by decide +kernel⟩, ⟨by decide +kernel, by decide +kernel⟩,
    by decide +kernel, by decide +kernel, by decide +kernel, by decide +kernel, ?_⟩
  intro hsame
  have hfirst : (afterLine.historyLine 0).head? ≠ ((afterLineThen replaceLine).historyLine 0).head? := by
    decide +kernel
  exact hfirst (congrArg List.head? hsame)

end Voytty.Terminal
