import Voytty.Terminal.Runs

/-!
# Replies over whole runs

Every reply of an update is an `Answer`, and a reply is paid for by the bytes
of its query: `credit` is what the bytes of an unfinished query allow, a byte
adds sixteen, and a finished query spends what it was given.
-/

namespace Voytty.Terminal

open Voytty.Lib Relation

variable {R : Type} {em : Emulator R} {m m' : Machine R} {text : List Char}
  {P : AlacrittyEngine R → Prop} {bytes : List UInt8} {t : TerminalModel R} {g : Ingest R}

/-! ## What the bytes of a query pay for -/

/-- One byte: its reply is an answer, paid for by the query's bytes up to it. -/
structure Paid (m : Machine R) (s : Step R) : Prop where
  answer : s.1 = .ok () → ∃ text, Answer text ∧
    (Counted m.engine →
      text.length + credit s.2.policy.state ≤ credit m.policy.state + 16) ∧
    s.2.output.replies = m.output.replies ++ encode text
  fits : Counted m.engine →
    m.output.replies.length + credit m.policy.state + 16 ≤ maxReplyBytesPerUpdate → s.1 = .ok ()

theorem Replied.paid {cost : Nat} {s : Step R}
    (h : Replied em Contained cost (m.setState .ground) s)
    (hc : cost ≤ credit m.policy.state + 16) : Paid m s := by
  have hground : s.2.policy.state = .ground := h.kept.state
  refine ⟨fun hok => ?_, fun hcount hfit => h.fits hcount ?_⟩
  · obtain ⟨text, ha, hl, he⟩ := h.answer hok
    refine ⟨text, ha, fun hcount => ?_, he⟩
    have := hl hcount
    rw [hground]
    simp only [credit] at *
    omega
  · show m.output.replies.length + cost ≤ _
    omega

theorem Paid.silent (h : m'.output.replies = m.output.replies)
    (hc : credit m'.policy.state ≤ credit m.policy.state + 16) : Paid m (.ok (), m') :=
  ⟨fun _ => ⟨[], .nil, fun _ => (Nat.zero_add _).le.trans hc, by simp [h, encode]⟩, fun _ _ => rfl⟩

theorem processByte_paid (law : Base64Law em.toVendor) (hm : Framed m.policy) (b : UInt8) :
    Paid m (m.processByte em b) := by
  have htook : Took em m b (m.processByte em b) := processByte_took hm.toPolicyInv b
  have hstate := hm.state
  have hcollected := hm.collected
  generalize m.processByte em b = s at htook
  cases htook with
  | stays h => exact .silent h.replies (by rw [h.state]; exact Nat.zero_le _)
  | enters h _ hs => exact .silent h.replies (hs.collected hcollected).2
  | reset => exact .silent rfl (Nat.zero_le _)
  | @csi s hs hb =>
    rw [hs] at hstate
    refine (dispatchCsi_replied covers_contained hm.ground.marks hstate
      (CsiOk.contained hstate hb)).paid ?_
    have := s.push_length b
    rw [hs]
    simp only [credit]
    omega
  | string hs sawEscape hf =>
    rw [hs] at hcollected
    refine (dispatchString_replied law ⟨hcollected.clipboard, hcollected.bounded⟩ hf).paid ?_
    rw [hs]
    exact stringCost_le hcollected

/-! ## Counters -/

/-- The emulator's dimensions are machine words. -/
def WordSized (t : Term R) : Prop := t.screenLines < 2 ^ 64 ∧ t.columns < 2 ^ 64

/-- A size of two 16-bit numbers. -/
def InU16 (size : TerminalSize) : Prop := size.rows < 2 ^ 16 ∧ size.columns < 2 ^ 16

/-- They stay so whatever the emulator is asked to do. -/
structure WordLaw (em : Emulator R) : Prop where
  init : ∀ (size : TerminalSize) rows, InU16 size → WordSized (em.init size rows)
  advance : ∀ t bytes, WordSized t → WordSized (em.advance t bytes).1
  resize : ∀ t (size : TerminalSize), InU16 size → WordSized t → WordSized (em.resize t size)

theorem counted_step (word : WordLaw em) : Preserved (EngineStep em) Counted := by
  intro e e' step h
  obtain ⟨hterm, hcolors, -⟩ := step.effect
  have hsize : WordSized e'.term := by
    rcases hterm with hstill | ⟨bytes, -, hfed⟩
    · obtain ⟨cursor, hcursor⟩ := hstill.term
      rw [hcursor]
      exact ⟨h.lines, h.columns⟩
    · rw [hfed.term]
      exact word.advance e.term bytes ⟨h.lines, h.columns⟩
  have hdepth : e'.colors.depth ≤ 10 ∧ e'.colors.stored ≤ 10 := by
    rcases hcolors with hsame | hedit
    · rw [hsame]
      exact ⟨h.depth, h.stored⟩
    · exact hedit.depth ⟨h.depth, h.stored⟩
  exact ⟨hsize.1, hsize.2, hdepth.1, hdepth.2⟩

theorem counted_law (word : WordLaw em) : EngineLaw em InU16 Counted where
  filter := counted_step word
  mark := fun _ _ h => ⟨h.lines, h.columns, h.depth, h.stored⟩
  commit := fun e revision h => by
    have hd : (e.colors.commit revision).depth = e.colors.depth ∧
        (e.colors.commit revision).stored = e.colors.stored := by
      unfold VoyttyColorState.commit
      dsimp only
      split <;> exact ⟨rfl, rfl⟩
    exact ⟨h.lines, h.columns, hd.1 ▸ h.depth, hd.2 ▸ h.stored⟩
  base := fun _ _ _ h => ⟨h.lines, h.columns, h.depth, h.stored⟩
  resize := fun e size hsize h => by
    obtain ⟨cursor, _, _, hr⟩ := e.resize_frame em size
    have hw := word.resize { e.term with cursor } size hsize ⟨h.lines, h.columns⟩
    rw [hr]
    exact ⟨hw.1, hw.2, h.depth, h.stored⟩

/-! ## Chunks -/

/-- Whatever a chunk leaves, its replies are an answer. -/
theorem processUntilBoundary_answers (law : Base64Law em.toVendor) (hm : Framed m.policy)
    {rest : List UInt8} (h : Machine.processUntilBoundary em bytes m = (.ok rest, m')) :
    ∃ text, Answer text ∧ m'.output.replies = m.output.replies ++ encode text := by
  induction bytes generalizing m with
  | nil => cases h; exact ⟨[], .nil, by simp [encode]⟩
  | cons b bytes ih =>
    have hpaid : Paid m (m.processByte em b) := processByte_paid law hm b
    have hadm : Admitted em m (m.processByte em b).2 := processByte_admitted hm.toPolicyInv b
    unfold Machine.processUntilBoundary at h
    split at h <;> rename_i m₁ hp <;> rw [hp] at hpaid hadm
    · cases h
    · obtain ⟨a, ha, -, hr⟩ := hpaid.answer rfl
      have hr' : m₁.collectEvents.output.replies = m.output.replies ++ encode a :=
        (Mute.collectEvents : Mute em m₁ _).replies.trans hr
      dsimp only at h
      split at h
      · cases h
        exact ⟨a, ha, hr'⟩
      · obtain ⟨c, hc, hrc⟩ := ih (hadm.collectEvents.framed hm) h
        exact ⟨a ++ c, ha.append hc, by rw [hrc, hr']; simp [encode]⟩

/-- A machine whose replies, credit and input stay within the bound. -/
structure Solvent (m : Machine R) (input : Nat) : Prop where
  framed : Framed m.policy
  counted : Counted m.engine
  funds : m.output.replies.length + credit m.policy.state + 16 * input ≤ maxReplyBytesPerUpdate

theorem Solvent.byte (law : Base64Law em.toVendor) (word : WordLaw em) {n : Nat}
    (h : Solvent m (n + 1)) (b : UInt8) :
    ∃ m', m.processByte em b = (.ok (), m') ∧ Solvent m'.collectEvents n := by
  have hfunds := h.funds
  have hpaid : Paid m (m.processByte em b) := processByte_paid law h.framed b
  have hadm : Admitted em m (m.processByte em b).2 := processByte_admitted h.framed.toPolicyInv b
  have hok := hpaid.fits h.counted (by omega)
  rcases hp : m.processByte em b with ⟨res, m'⟩
  rw [hp] at hpaid hadm hok
  obtain rfl : res = .ok () := hok
  have hevents : Mute em m' m'.collectEvents := .collectEvents
  obtain ⟨text, ha, hl, hr⟩ := hpaid.answer rfl
  have hl := hl h.counted
  refine ⟨m', rfl, hadm.collectEvents.framed h.framed,
    (counted_step word).run hadm.collectEvents.engine h.counted, ?_⟩
  rw [hevents.replies, hevents.policy]
  dsimp only at hl hr
  rw [hr, List.length_append, ha.length_encode]
  omega

theorem Solvent.chunk (law : Base64Law em.toVendor) (word : WordLaw em) (h : Solvent m bytes.length) :
    ∃ rest m', Machine.processUntilBoundary em bytes m = (.ok rest, m') ∧
      Solvent m' rest.length := by
  induction bytes generalizing m with
  | nil => exact ⟨[], m, rfl, h⟩
  | cons b bytes ih =>
    obtain ⟨m', hp, hs⟩ := Solvent.byte (n := bytes.length) law word h b
    unfold Machine.processUntilBoundary
    rw [hp]
    dsimp only
    split
    · exact ⟨bytes, _, rfl, hs⟩
    · exact ih hs

/-! ## Rounds -/

/-- `g'` follows `g` with the replies and the framing untouched. -/
structure Ingest.Silent (g g' : Ingest R) : Prop where
  replies : g'.output.replies = g.output.replies
  state : g'.model.ingress.state = g.model.ingress.state

theorem commitMetadata_ingress (t : TerminalModel R) : t.commitMetadata.ingress = t.ingress := by
  obtain ⟨_, -, h⟩ := commitMetadata_frame t
  rw [h]

theorem expire_silent (g : Ingest R) (clock : Nat → Nat) : g.Silent (g.expire clock) := by
  rcases expire_cases g clock with he | he <;> rw [he] <;> exact ⟨rfl, rfl⟩

theorem applySiblings_silent (g : Ingest R) (enabled : Bool) (modes : List Nat) :
    g.Silent (g.applySiblings em enabled modes) := by
  refine ⟨rfl, ?_⟩
  unfold Ingest.applySiblings
  rw [commitMetadata_ingress]

theorem Bounded.silent {clock : Nat → Nat} {boundary : Option PresentationBoundary}
    {r : Except TerminalError Unit × Ingest R} (h : Bounded em clock g boundary r) :
    g.Silent r.2 ∧ ∀ e, r.1 = .error e → e = .revisionOverflow := by
  cases h with
  | absent | reset => exact ⟨⟨rfl, rfl⟩, nofun⟩
  | exhausted => exact ⟨⟨rfl, rfl⟩, fun e he => (Except.error.inj he).symm⟩
  | begins => exact ⟨⟨rfl, (applySiblings_silent (g.frozen clock) _ _).state⟩, nofun⟩
  | siblings => exact ⟨⟨rfl, (applySiblings_silent (Ingest.setModel _ _) _ _).state⟩, nofun⟩
  | held => exact ⟨applySiblings_silent g _ _, nofun⟩
  | ends => exact ⟨⟨rfl, (applySiblings_silent g _ _).state⟩, nofun⟩

/-- The boundary after a chunk: the machine's replies and framing, or no revision is left. -/
theorem boundary_silent {clock : Nat → Nat} {g' : Ingest R} {revision : Nat} {m : Machine R}
    {boundary : Option PresentationBoundary} {res : Except TerminalError Unit}
    (h : (g.settled revision m).applyBoundary em clock boundary = (res, g')) :
    g'.output.replies = m.output.replies ∧ g'.model.ingress.state = m.policy.state ∧
      ∀ e, res = .error e → e = .revisionOverflow := by
  obtain ⟨hsilent, herror⟩ := (Bounded.of_eq h).silent
  refine ⟨hsilent.replies, hsilent.state.trans ?_, herror⟩
  simp only [Ingest.settled, Ingest.takeBoundary, Ingest.setModel, commitMetadata_ingress]
  rfl

theorem Rounded.answers (law : Base64Law em.toVendor) {clock : Nat → Nat} {rest : List UInt8}
    {g' : Ingest R} (hr : Rounded em clock g bytes (.ok rest, g')) (hg : ModelInv P g.model) :
    ∃ text, Answer text ∧ g'.output.replies = g.output.replies ++ encode text := by
  have hexpire := expire_silent g clock
  have he := (hg.expire (clock g.tick)).1
  rw [← expire_model] at he
  cases hr with
  | passed hp hb =>
    obtain ⟨text, ha, hrep⟩ := processUntilBoundary_answers law he.sound.policy hp
    obtain ⟨hreplies, -, -⟩ := boundary_silent hb
    refine ⟨text, ha, ?_⟩
    rw [hreplies, hrep]
    exact congrArg (· ++ encode text) hexpire.replies

theorem rounds_answers (law : Base64Law em.toVendor) (clock : Nat → Nat) (fuel : Nat)
    (hg : ModelInv (fun _ => True) g.model)
    (hok : (Ingest.rounds em clock fuel bytes g).1 = .ok ()) :
    ∃ text, Answer text ∧ (Ingest.rounds em clock fuel bytes g).2.output.replies =
      g.output.replies ++ encode text := by
  let A (g' : Ingest R) : Prop :=
    ∃ text, Answer text ∧ g'.output.replies = g.output.replies ++ encode text
  refine rounds_rule (K := fun _ g' => ModelInv (fun _ => True) g'.model ∧ A g')
    (Q := fun res g' => res = .ok () → A g') (fun h _ => h.2) (fun {_ _ r} h hr => ?_) fuel
    ⟨hg, [], .nil, by simp [encode]⟩ hok
  obtain ⟨hi, a, ha, hra⟩ := h
  have hround := Rounded.of_eq hr
  have hnext := (hround.inv trivial_law hi).1
  rcases r with ⟨_ | rest, g'⟩
  · rintro ⟨⟩
  · obtain ⟨c, hc, hrc⟩ := hround.answers law hi
    exact ⟨hnext, a ++ c, ha.append hc, by rw [hrc, hra]; simp [encode]⟩

/-- A call under way whose replies, credit and input stay within the bound. -/
structure Ingest.Solvent (g : Ingest R) (input : Nat) : Prop where
  inv : ModelInv Counted g.model
  funds : g.output.replies.length + credit g.model.ingress.state + 16 * input ≤
    maxReplyBytesPerUpdate

/-- A round of a solvent call fails only for want of a revision. -/
theorem Ingest.Solvent.round (law : Base64Law em.toVendor) (word : WordLaw em) {clock : Nat → Nat}
    {r : Except TerminalError (List UInt8) × Ingest R} (hr : Rounded em clock g bytes r)
    (h : g.Solvent bytes.length) :
    AfterRound (fun rest g' => g'.Solvent rest.length)
      (fun res _ => res = .ok () ∨ res = .error .revisionOverflow) r := by
  have hinv := (hr.inv (counted_law word) h.inv).1
  have hexpire := expire_silent g clock
  have he := (h.inv.expire (clock g.tick)).1
  rw [← expire_model] at he
  have hsolvent : Voytty.Terminal.Solvent (g.expire clock).machine bytes.length :=
    ⟨he.sound.policy, (counted_law word).mark _ _ he.sound.engine, by
      have := h.funds
      rw [← hexpire.state, ← hexpire.replies] at this
      exact this⟩
  obtain ⟨rest, m, hchunk, hsol⟩ := hsolvent.chunk law word
  cases hr with
  | exhausted hrev => exact .inr (congrArg _ (TerminalModel.nextRevision_error _ hrev))
  | overflow hp => rw [hp] at hchunk; cases hchunk
  | failed hp hb =>
    obtain ⟨-, -, herror⟩ := boundary_silent hb
    exact .inr (congrArg _ (herror _ rfl))
  | passed hp hb =>
    rw [hp] at hchunk
    cases hchunk
    obtain ⟨hreplies, hstate, -⟩ := boundary_silent hb
    refine ⟨hinv, ?_⟩
    rw [hreplies, hstate]
    exact hsol.funds

theorem Ingest.Solvent.rounds (law : Base64Law em.toVendor) (word : WordLaw em) (clock : Nat → Nat)
    (fuel : Nat) (h : g.Solvent bytes.length) :
    (Ingest.rounds em clock fuel bytes g).1 = .ok () ∨
      (Ingest.rounds em clock fuel bytes g).1 = .error .revisionOverflow :=
  rounds_rule (K := fun rest g' => g'.Solvent rest.length) (fun _ => .inl rfl)
    (fun h hr => h.round law word (.of_eq hr)) fuel h

/-! ## Runs -/

variable (em) in
/-- The update a command returns, if it succeeds. -/
def TerminalModel.update (t : TerminalModel R) : ModelOp → Option TerminalUpdate
  | .ingest clock bytes => (t.ingest em clock bytes).1.toOption
  | .resize size => (t.resize em size).1.toOption
  | .updateBaseColors base => (t.updateBaseColors base).1.toOption
  | .expire _ | .finish => none

theorem Answer.sequences (h : Answer text) :
    ∃ sequences : List (List Char), (∀ q ∈ sequences, ControlReply q) ∧ text = sequences.flatten := by
  induction h with
  | nil => exact ⟨[], by simp, rfl⟩
  | @cons q rest hq _ ih =>
    obtain ⟨qs, hqs, rfl⟩ := ih
    exact ⟨q :: qs, by simpa using ⟨hq, hqs⟩, rfl⟩

theorem update_answer (law : Base64Law em.toVendor) (h : ModelInv (fun _ => True) t)
    {op : ModelOp} {u : TerminalUpdate} (hu : t.update em op = some u) :
    ∃ text, Answer text ∧ u.replies = encode text := by
  have hnone : ∃ text, Answer text ∧ ([] : List UInt8) = encode text := ⟨[], .nil, rfl⟩
  cases op with
  | ingest clock bytes =>
    have hok : (t.ingestObserving em clock bytes).1 = .ok u := by
      unfold TerminalModel.update TerminalModel.ingest Except.toOption at hu
      dsimp only at hu
      split at hu <;> cases hu
      assumption
    obtain ⟨hr, hreplies⟩ := (ingestObserving_ingested em t clock bytes).update u hok
    obtain ⟨text, ha, he⟩ :=
      rounds_answers (g := { model := t }) law clock bytes.length h hr
    exact ⟨text, ha, hreplies.trans he⟩
  | resize size =>
    unfold TerminalModel.update TerminalModel.resize at hu
    dsimp only at hu
    split at hu <;> cases hu
    exact hnone
  | updateBaseColors base =>
    unfold TerminalModel.update TerminalModel.updateBaseColors at hu
    dsimp only at hu
    split at hu
    · cases hu
    split at hu
    · cases hu; exact hnone
    split at hu
    · cases hu
    · cases hu
      dsimp only
      split
      · exact ⟨_, appearanceReply_answer _, rfl⟩
      · exact hnone
  | expire now => cases hu
  | finish => cases hu

/-- Whatever the child prints and however it is chunked, what is written back to it is a
concatenation of complete control sequences that repeat its output only as numbers, a plus sign,
colour names, hexadecimal digits and base64. -/
theorem replies_are_control_sequences (em : Emulator R) (law : Base64Law em.toVendor)
    (size : TerminalSize) (scrollbackRows : Nat) (t : TerminalModel R)
    (hnew : TerminalModel.new em size scrollbackRows = .ok t) (ops : List ModelOp) (op : ModelOp)
    (u : TerminalUpdate) (hu : (ops.foldl (·.apply em) t).update em op = some u) :
    ∃ sequences : List (List Char), (∀ q ∈ sequences, ControlReply q) ∧
      (∀ c ∈ sequences.flatten, c.toNat < 0x80) ∧
      u.replies = sequences.flatten.map fun c => UInt8.ofNat c.toNat := by
  have hstart : ModelInv (fun _ => True) t := .new trivial_law hnew trivial
  have hrun : ModelInv (fun _ => True) (ops.foldl (·.apply em) t) :=
    hstart.applyAll trivial_law fun op _ => by cases op <;> trivial
  obtain ⟨text, ha, hr⟩ := update_answer law hrun hu
  have hascii := ha.ascii
  rw [encode_ascii hascii] at hr
  obtain ⟨sequences, hs, rfl⟩ := ha.sequences
  exact ⟨sequences, hs, hascii, hr⟩

/-- `typewriter` with the standard unpadded base64. -/
def encodingTypewriter : Emulator Unit := { typewriter with base64Encode := base64NoPad }

theorem encodingTypewriter_base64 : Base64Law encodingTypewriter.toVendor where
  alphabet := fun bytes b hb =>
    have hmem : b ∈ base64With [] bytes := hb
    (mem_base64With hmem).resolve_right List.not_mem_nil
  length := base64NoPad_length

theorem encodingTypewriter_word : WordLaw encodingTypewriter where
  init := fun size rows h => by
    unfold InU16 at h
    constructor <;> simp [encodingTypewriter, typewriter] <;> omega
  advance := fun t bytes h => by
    simp only [encodingTypewriter, typewriter]
    split <;> exact h
  resize := fun t size h _ => by
    unfold InU16 at h
    constructor <;> simp [encodingTypewriter, typewriter] <;> omega

/-- `ESC ] 2 1 ; a = ? BEL`. -/
def unknownColorQuery : List UInt8 := [0x1b, 0x5d, 0x32, 0x31, 0x3b, 0x61, 0x3d, 0x3f, 0x07]

theorem replies_are_control_sequences_typewriter :
    ∃ t u, TerminalModel.new encodingTypewriter ⟨24, 80⟩ 100 = .ok t ∧
      t.update encodingTypewriter (.ingest id unknownColorQuery) = some u ∧
      u.replies = encode "\x1b]21;unknown=YQ\x07".toList ∧
      ∃ sequences : List (List Char), (∀ q ∈ sequences, ControlReply q) ∧
        (∀ c ∈ sequences.flatten, c.toNat < 0x80) ∧
        u.replies = sequences.flatten.map fun c => UInt8.ofNat c.toNat :=
  ⟨_, _, rfl, rfl, rfl, replies_are_control_sequences encodingTypewriter encodingTypewriter_base64
    ⟨24, 80⟩ 100 _ rfl [] (.ingest id unknownColorQuery) _ rfl⟩

end Voytty.Terminal
