import Voytty.Lib.Transition
import Voytty.Terminal.TextTokens

/-!
# What the filter does to the engine

`FeedStep P` lists everything the filter can do to the engine, with `P` on every
string it feeds; facts about the engine are proved on these steps alone. The
relations between machines build on it: `Aside` feeds nothing and leaves the
filter alone, `Kept` leaves the framing alone, and `Mute` and `Quiet` do not
reply either.
-/

namespace Voytty.Terminal

open Voytty.Lib Relation

/-! ## What a byte can do to the engine -/

variable {R : Type} (em : Emulator R)

/-- What the filter changes in the engine without feeding it. -/
inductive LocalStep : AlacrittyEngine R → AlacrittyEngine R → Prop where
  | accept (e : AlacrittyEngine R) (c : Char) : LocalStep e (e.acceptCharacter em c).2
  | events (e : AlacrittyEngine R) : LocalStep e e.takeEvents.2
  | colors (e : AlacrittyEngine R) (colors : VoyttyColorState) (h : ColorEdit e.colors colors) :
      LocalStep e { e with colors }
  | legacy (e : AlacrittyEngine R) (enabled : Bool) :
      LocalStep e { e with legacyX10Mouse := enabled }
  | title (e : AlacrittyEngine R) (title : List Char) (h : validTitle title) :
      LocalStep e { e with applicationTitle := title }
  | link (e : AlacrittyEngine R) (payload : List Char) :
      LocalStep e (e.setWebHyperlink em payload).2
  | closeLink (e : AlacrittyEngine R) : LocalStep e e.closeHyperlink

/-- Everything the filter does to the engine, when all it feeds has `P`. -/
inductive FeedStep (P : List UInt8 → Prop) : AlacrittyEngine R → AlacrittyEngine R → Prop where
  | feed (e : AlacrittyEngine R) (bytes : List UInt8) (h : P bytes) :
      FeedStep P e (e.feedRaw em bytes)
  | transition (e : AlacrittyEngine R) (bytes : List UInt8) (h : P bytes) :
      FeedStep P e (e.feedScreenTransition em bytes)
  | reset (e : AlacrittyEngine R) (h : P [0x1b, 0x63]) :
      FeedStep P e (e.feedReset em [0x1b, 0x63])
  | locally {e e' : AlacrittyEngine R} (h : LocalStep em e e') : FeedStep P e e'

abbrev FeedSteps (P : List UInt8 → Prop) := ReflTransGen (FeedStep em P)

abbrev EngineStep := FeedStep em Contained

abbrev EngineSteps := ReflTransGen (EngineStep em)

variable {em} {P Q : List UInt8 → Prop} {e e' : AlacrittyEngine R}

theorem FeedSteps.mono (h : FeedSteps em P e e') (hPQ : ∀ bytes, P bytes → Q bytes) :
    FeedSteps em Q e e' := by
  refine ReflTransGen.mono (fun _ _ step => ?_) _ _ h
  cases step with
  | feed bytes h => exact .feed _ _ (hPQ _ h)
  | transition bytes h => exact .transition _ _ (hPQ _ h)
  | reset h => exact .reset _ (hPQ _ h)
  | locally h => exact .locally h

/-- Only the cursor may differ in what the emulator holds. -/
structure Still (e e' : AlacrittyEngine R) : Prop where
  term : ∃ cursor, e'.term = { e.term with cursor }
  fed : e'.fed = e.fed
  input : e'.gridInput = e.gridInput

variable (em) in
/-- The emulator read `bytes`. -/
structure Fed (bytes : List UInt8) (e e' : AlacrittyEngine R) : Prop where
  term : e'.term = (em.advance e.term bytes).1
  fed : e'.fed = e.fed ++ [bytes]
  input : e'.gridInput = true

/-- What the filter keeps itself: the colours and a valid title. -/
structure Tinted (e e' : AlacrittyEngine R) : Prop where
  colors : e'.colors = e.colors ∨ ColorEdit e.colors e'.colors
  title : e'.applicationTitle = e.applicationTitle ∨ validTitle e'.applicationTitle = true

theorem Still.screen {e e' : AlacrittyEngine R} (h : Still e e') :
    e'.activeScreen = e.activeScreen := by
  obtain ⟨cursor, hterm⟩ := h.term
  unfold AlacrittyEngine.activeScreen
  rw [hterm]

theorem LocalStep.effect (h : LocalStep em e e') : Still e e' ∧ Tinted e e' := by
  cases h with
  | accept c =>
    obtain ⟨_, h⟩ := e.acceptCharacter_frame em c
    rw [h]
    exact ⟨⟨⟨_, rfl⟩, rfl, rfl⟩, .inl rfl, .inl rfl⟩
  | link payload =>
    obtain ⟨_, _, h⟩ := e.setWebHyperlink_frame em payload
    rw [h]
    exact ⟨⟨⟨_, rfl⟩, rfl, rfl⟩, .inl rfl, .inl rfl⟩
  | colors colors h => exact ⟨⟨⟨_, rfl⟩, rfl, rfl⟩, .inr h, .inl rfl⟩
  | title title h => exact ⟨⟨⟨_, rfl⟩, rfl, rfl⟩, .inl rfl, .inr h⟩
  | _ => exact ⟨⟨⟨_, rfl⟩, rfl, rfl⟩, .inl rfl, .inl rfl⟩

theorem FeedStep.effect (h : FeedStep em P e e') :
    (Still e e' ∨ ∃ bytes, P bytes ∧ Fed em bytes e e') ∧ Tinted e e' := by
  cases h with
  | feed bytes hb =>
    obtain ⟨_, h⟩ := e.feedRaw_frame em bytes
    rw [h]
    exact ⟨.inr ⟨bytes, hb, rfl, rfl, rfl⟩, .inl rfl, .inl rfl⟩
  | transition bytes hb =>
    obtain ⟨_, _, h⟩ := e.feedScreenTransition_frame em bytes
    rw [h]
    exact ⟨.inr ⟨bytes, hb, rfl, rfl, rfl⟩, .inl rfl, .inl rfl⟩
  | reset hb =>
    obtain ⟨_, h⟩ := e.feedReset_frame em [0x1b, 0x63]
    rw [h]
    exact ⟨.inr ⟨_, hb, rfl, rfl, rfl⟩, .inr (.reset _), .inr rfl⟩
  | locally h => exact ⟨.inl h.effect.1, h.effect.2⟩

theorem FeedSteps.fed (h : FeedSteps em P e e') :
    ∃ units, e'.fed = e.fed ++ units ∧ ∀ bytes ∈ units, P bytes := by
  induction h with
  | refl => exact ⟨[], by simp, nofun⟩
  | tail _ step ih =>
    obtain ⟨units, hu, hp⟩ := ih
    rcases step.effect.1 with hstill | ⟨bytes, hbytes, hfed⟩
    · exact ⟨units, hstill.fed.trans hu, hp⟩
    · refine ⟨units ++ [bytes], by rw [hfed.fed, hu, List.append_assoc], fun b hmem => ?_⟩
      rcases List.mem_append.mp hmem with hmem | hmem
      · exact hp b hmem
      · exact List.mem_singleton.mp hmem ▸ hbytes

/-- `P` holds of everything the filter feeds but resets and the sequences it collects. -/
structure Covers (P : List UInt8 → Prop) : Prop where
  plain : ∀ bytes, Plain bytes → P bytes
  modes : ∀ modes enabled, ModesFit modes → P (privateModeSequence modes enabled)

theorem covers_contained : Covers Contained :=
  ⟨fun _ h => h.contained, fun _ enabled h => contained_rebuilt h enabled⟩

theorem colors_steps (e : AlacrittyEngine R) {colors : VoyttyColorState}
    (h : ColorEdits e.colors colors) : ReflTransGen (LocalStep em) e { e with colors } := by
  induction h with
  | refl => exact .refl
  | @tail mid last _ step ih => exact ih.tail (.colors { e with colors := mid } last step)

theorem applyLocalMode_steps (enabled : Bool) (e : AlacrittyEngine R) (mode : Nat) :
    ReflTransGen (LocalStep em) e (applyLocalMode enabled e mode) := by
  unfold applyLocalMode
  split
  · exact .single (.colors e _ (.reverse ..))
  split
  · exact .single (.colors e _ (.subscribed ..))
  split
  · exact .single (.legacy e enabled)
  · exact .refl

theorem applyPrivateModes_steps (hP : Covers P) {parameters : List Nat} (h : ModesFit parameters)
    (enabled : Bool) (e : AlacrittyEngine R) :
    FeedSteps em P e (applyPrivateModes em parameters enabled e) := by
  have hfit : ModesFit (parameters.filter fun mode => !isLocalMode mode) :=
    (modesCost_sublist List.filter_sublist).trans h
  have hlocal : FeedSteps em P e (parameters.foldl (applyLocalMode enabled) e) :=
    ReflTransGen.mono (fun _ _ => .locally) _ _
      (run_foldl id (applyLocalMode_steps enabled) parameters e)
  simp only [applyPrivateModes]
  split
  · exact hlocal
  split
  · exact hlocal.tail (.transition _ _ (hP.modes _ enabled hfit))
  · exact hlocal.tail (.feed _ _ (hP.modes _ enabled hfit))

theorem boundedApplicationTitle_valid (bytes : List UInt8) :
    validTitle (boundedApplicationTitle bytes).1 := by
  have aux : ∀ cs title : List Char, (∀ c ∈ cs, isControl c = false) → validTitle title →
      validTitle (boundedTitleFrom title cs).1 := by
    intro cs
    induction cs with
    | nil => exact fun _ _ h => h
    | cons c cs ih =>
      intro title hcs ht
      unfold boundedTitleFrom
      split
      · exact ht
      · rename_i hfit
        refine ih _ (fun d hd => hcs d (List.mem_cons_of_mem _ hd)) ?_
        have hc := hcs c List.mem_cons_self
        simp only [validTitle, Bool.and_eq_true, decide_eq_true_eq, Bool.not_eq_true',
          List.any_append, byteLen_append] at ht ⊢
        simp only [ht.2, byteLen_cons, byteLen_nil, List.any_cons, hc, List.any_nil, Bool.or_self,
          and_true]
        omega
  exact aux _ _ (by simp) rfl

/-- A boundary's sibling modes fit a rebuilt sequence. -/
def BoundaryOk : Option PresentationBoundary → Prop
  | some (.synchronizedOutput _ modes) => ModesFit modes
  | _ => True

/-- What the filter remembers outside its framing: the last printed character and a boundary. -/
structure MarksOk (p : TerminalIngressPolicy) : Prop where
  boundary : BoundaryOk p.boundary
  preceding : ∀ c, p.precedingCharacter = some c → Printable c

/-! ## Machines that follow -/

section Machines

variable (em) (P)

/-- `m'` follows `m` with the filter untouched and the engine fed nothing. -/
structure Aside (m m' : Machine R) : Prop where
  engine : ReflTransGen (LocalStep em) m.engine m'.engine
  policy : m'.policy = m.policy

/-- The same without a reply. -/
structure Mute (m m' : Machine R) : Prop extends Aside em m m' where
  replies : m'.output.replies = m.output.replies

/-- `m'` follows `m` with the framing untouched and only `P` fed. -/
structure Kept (m m' : Machine R) : Prop where
  engine : FeedSteps em P m.engine m'.engine
  state : m'.policy.state = m.policy.state
  utf8 : m'.policy.utf8 = m.policy.utf8
  marks : MarksOk m.policy → MarksOk m'.policy

/-- The same without a reply. -/
structure Quiet (m m' : Machine R) : Prop extends Kept em P m m' where
  replies : m'.output.replies = m.output.replies

end Machines

variable {m m' m'' : Machine R}

theorem Aside.trans (h : Aside em m m') (h' : Aside em m' m'') : Aside em m m'' :=
  ⟨h.engine.trans h'.engine, h'.policy.trans h.policy⟩

theorem Aside.fed (h : Aside em m m') : m'.engine.fed = m.engine.fed :=
  run_const (f := AlacrittyEngine.fed) (fun _ _ step => step.effect.1.fed) h.engine

theorem Aside.kept (h : Aside em m m') : Kept em P m m' where
  engine := ReflTransGen.mono (fun _ _ => .locally) _ _ h.engine
  state := by rw [h.policy]
  utf8 := by rw [h.policy]
  marks := by rw [h.policy]; exact id

theorem Mute.quiet (h : Mute em m m') : Quiet em P m m' := ⟨h.kept, h.replies⟩

theorem Aside.pushReply (reply : List Char) : Aside em m (m.pushReply reply).2 := by
  unfold Machine.pushReply
  split <;> exact ⟨.refl, rfl⟩

namespace Mute

theorem refl (m : Machine R) : Mute em m m := ⟨⟨.refl, rfl⟩, rfl⟩

theorem trans (h : Mute em m m') (h' : Mute em m' m'') : Mute em m m'' :=
  ⟨h.toAside.trans h'.toAside, h'.replies.trans h.replies⟩

theorem setEngine {e : AlacrittyEngine R} (h : ReflTransGen (LocalStep em) m.engine e) :
    Mute em m (m.setEngine e) := ⟨⟨h, rfl⟩, rfl⟩

theorem output (o : UpdateCollector) (h : o.replies = m.output.replies) :
    Mute em m { m with output := o } := ⟨⟨.refl, rfl⟩, h⟩

/-! ### Events and control strings -/

theorem collectEvents : Mute em m m.collectEvents := by
  have hpush : ∀ (events : List TerminalSideEvent) (m : Machine R),
      Mute em m (events.foldl Machine.pushEvent m) := by
    intro events
    induction events with
    | nil => exact refl
    | cons event events ih =>
      intro m
      have hevent : Mute em m (m.pushEvent event) := output _ rfl
      exact hevent.trans (ih _)
  exact (setEngine (.single (.events _))).trans (hpush _ _)

theorem setHyperlink (payload : List UInt8) :
    Mute em m (m.setHyperlink em payload) := by
  have hclose : ∀ m : Machine R,
      Mute em m ((m.setEngine m.engine.closeHyperlink).unsupported .osc) :=
    fun m => (setEngine (.single (.closeLink _))).trans (output _ rfl)
  unfold Machine.setHyperlink
  cases decode payload with
  | none => exact hclose m
  | some text =>
    have hlink : Mute em m (m.setEngine (m.engine.setWebHyperlink em text).2) :=
      setEngine (.single (.link _ _))
    simp only [Option.map_some]
    rcases hs : m.engine.setWebHyperlink em text with ⟨accepted, engine⟩
    rw [hs] at hlink
    cases accepted
    · exact hlink.trans (hclose _)
    · exact hlink

theorem dispatchClipboard (payload : List UInt8) : Mute em m (m.dispatchClipboard em payload) := by
  unfold Machine.dispatchClipboard
  dsimp only
  split
  · exact output _ rfl
  · split <;> exact output _ rfl

theorem dispatchOsc (bytes : List UInt8) : Mute em m (m.dispatchOsc em bytes) := by
  unfold Machine.dispatchOsc
  dsimp only
  split
  · exact setHyperlink _
  split
  · exact (setEngine (.single (.title _ _ (boundedApplicationTitle_valid _)))).trans (output _ rfl)
  split
  · exact output _ rfl
  split
  · split <;> exact output _ rfl
  split
  · exact dispatchClipboard _
  · exact output _ rfl

theorem dispatchOverflowed (string : ControlString) :
    Mute em m (m.dispatchOverflowed string) := by
  have hclose : Mute em m
      (if string.kind = .osc ∧ [0x38, 0x3b] <+: string.bytes then
        m.setEngine m.engine.closeHyperlink else m) := by
    split
    · exact setEngine (.single (.closeLink _))
    · exact refl m
  refine hclose.trans ?_
  unfold Machine.dispatchOverflowed
  dsimp only
  repeat' split
  all_goals exact output _ rfl

end Mute

theorem Aside.oscColors {text finish : List Char} {o : OscState} (h : m.oscColors em text finish = some o) :
    ColorEdits m.engine.colors o.colors := by
  unfold Machine.oscColors at h
  dsimp only at h
  split at h
  · cases h
  · exact osc_edits h

theorem Aside.dispatchString (string : ControlString) (finish : List Char) :
    Aside em m (m.dispatchString em string finish).2 := by
  unfold Machine.dispatchString
  split
  · exact (Mute.dispatchOverflowed string).toAside
  split
  · split
    · exact .pushReply _
    · exact ⟨.refl, rfl⟩
  · split
    · rename_i ho
      exact (Mute.setEngine (colors_steps _ (oscColors ho))).toAside.trans (.pushReply _)
    · exact (Mute.dispatchOsc _).toAside
  · exact (Mute.dispatchOsc _).toAside
  · exact ⟨.refl, rfl⟩

theorem Kept.trans (h : Kept em P m m') (h' : Kept em P m' m'') : Kept em P m m'' :=
  ⟨h.engine.trans h'.engine, h'.state.trans h.state, h'.utf8.trans h.utf8,
    h'.marks ∘ h.marks⟩

namespace Quiet

theorem refl (m : Machine R) : Quiet em P m m := (Mute.refl m).quiet

theorem trans (h : Quiet em P m m') (h' : Quiet em P m' m'') : Quiet em P m m'' :=
  ⟨h.toKept.trans h'.toKept, h'.replies.trans h.replies⟩

theorem mono (h : Quiet em P m m') (hPQ : ∀ bytes, P bytes → Q bytes) : Quiet em Q m m' :=
  ⟨⟨h.engine.mono hPQ, h.state, h.utf8, h.marks⟩, h.replies⟩

theorem output (o : UpdateCollector) (h : o.replies = m.output.replies) :
    Quiet em P m { m with output := o } := (Mute.output o h).quiet

theorem setEngine {e : AlacrittyEngine R} (h : FeedSteps em P m.engine e) :
    Quiet em P m (m.setEngine e) := ⟨⟨h, rfl, rfl, id⟩, rfl⟩

theorem feed {bytes : List UInt8} (h : P bytes) : Quiet em P m (m.feedRaw em bytes) :=
  setEngine (.single (.feed _ _ h))

/-! ### Text -/

theorem printCharacter {c : Char} (hc : Printable c) :
    Quiet em Plain m (m.printCharacter em c) := by
  have haccept : Quiet em Plain m (m.setEngine (m.engine.acceptCharacter em c).2) :=
    setEngine (.single (.locally (.accept _ _)))
  unfold Machine.printCharacter
  split
  rename_i accepted engine ha
  rw [ha] at haccept
  dsimp only
  split
  · have hfeed := haccept.trans (feed ((Contained.character c hc).plain hc.no_escape))
    exact ⟨⟨hfeed.engine, hfeed.state, hfeed.utf8,
      fun h => ⟨h.boundary, by rintro _ ⟨⟩; exact hc⟩⟩, hfeed.replies⟩
  · exact haccept.trans (output _ rfl)

theorem control {b : UInt8} (hlow : b < 0x20 ∨ b = 0x7f) (hesc : b ≠ 0x1b) (hbel : b ≠ 0x07) :
    Quiet em Plain m (m.feedRaw em [b]) :=
  feed ((Contained.control b hlow hesc hbel).plain (by simpa using Ne.symm hesc))

theorem hand {t : TextToken} (ht : t.Handed) : Quiet em Plain m (m.hand em t) := by
  cases t with
  | character c => exact printCharacter ht
  | fragment bytes =>
    obtain ⟨hne, hinvalid, hhigh⟩ := ht
    have hplain := (Contained.fragment bytes hne hhigh hinvalid).plain
      fun hmem => absurd (hhigh _ hmem) (by decide)
    exact ⟨⟨.single (.feed _ _ hplain), rfl, rfl, fun h => ⟨h.boundary, nofun⟩⟩, rfl⟩
  | control b =>
    dsimp only [Machine.hand]
    split
    · exact output _ rfl
    · exact control ht.1 ht.2 ‹_›

theorem hands {tokens : List TextToken} (ht : ∀ t ∈ tokens, t.Handed) :
    Quiet em Plain m (tokens.foldl (Machine.hand em) m) := by
  induction tokens generalizing m with
  | nil => exact refl m
  | cons t tokens ih =>
    obtain ⟨hhead, hrest⟩ := List.forall_mem_cons.mp ht
    exact (hand hhead).trans (ih hrest)

/-! ### Sequences without a reply -/

variable {b : UInt8} {s : Sequence}

theorem embeddedControl (hb : isEmbeddedControl b) :
    Quiet em Plain m (m.dispatchEmbeddedControl em b) := by
  unfold Machine.dispatchEmbeddedControl
  split
  · exact output _ rfl
  rename_i bel
  split
  · exact refl m
  · have hlow : (b < 0x20 ∨ b = 0x7f) ∧ b ≠ 0x1b := by
      unfold isEmbeddedControl at hb
      grind
    exact control hlow.1 hlow.2 bel

theorem dispatchEscape (h : EscapeOk s) (hb : isEscapeFinal b)
    (hsecond : s.bytes.length = 1 → s.overflowed = false → b ∉ introducers)
    (hreset : (s.push b).overflowed = true ∨ (s.push b).bytes ≠ [0x1b, 0x63]) :
    Quiet em Plain m (m.dispatchEscape em (s.push b)) := by
  unfold Machine.dispatchEscape
  split
  · exact output _ rfl
  rename_i ho
  replace hreset := hreset.resolve_left ho
  split
  · exact output _ rfl
  obtain ⟨tail, hbytes, hmid, hs, hlen⟩ := h.final (by simpa using ho)
  rw [hbytes] at hlen hreset ⊢
  -- the second byte is the final only when nothing stands between
  have hhead : ∀ c, (tail ++ [b]).head? = some c → c ∉ introducers := by
    intro c hc
    cases tail with
    | nil =>
      obtain rfl : b = c := by simpa using hc
      have hf : s.overflowed = false := by
        rcases s.push_cases b with h' | ⟨-, hf, -⟩
        · exact absurd h' ho
        · exact hf
      exact hsecond (by simp [hs]) hf
    | cons d tail =>
      obtain rfl : d = c := by simpa using hc
      have := hmid d List.mem_cons_self
      unfold introducers
      grind
  refine feed ⟨.escape tail b hmid (by simpa [isEscapeFinal] using hb) hhead hlen, fun he => ?_,
    hreset⟩
  refine hhead 0x5b ?_ (by simp [introducers])
  cases htail : tail ++ [b] with
  | nil => simp at htail
  | cons c rest =>
    rw [List.append_assoc, htail] at he
    simpa using he

theorem repeatCharacter (hm : MarksOk m.policy) (marker : Option UInt8)
    (parameters : Option (List Nat)) :
    Quiet em Plain m (m.repeatCharacter em marker parameters) := by
  have hrep : ∀ {c : Char}, Printable c → ∀ (count : Nat) (m : Machine R),
      Quiet em Plain m ((fun m => Machine.printCharacter em m c)^[count] m) := by
    intro c hc count
    induction count with
    | zero => exact refl
    | succ count ih => exact fun m => (printCharacter hc).trans (ih _)
  unfold Machine.repeatCharacter
  split
  · rename_i hp
    exact hrep (hm.preceding _ hp) ..
  · exact output _ rfl
  · exact refl m

theorem setPrivateModes (hP : Covers P) {parameters : List Nat} (h : ModesFit parameters)
    (enabled : Bool) : Quiet em P m (m.setPrivateModes em parameters enabled) := by
  unfold Machine.setPrivateModes
  by_cases hsync : 2026 ∈ parameters
  · rw [if_pos hsync]
    exact ⟨⟨.refl, rfl, rfl,
      fun hm => ⟨(modesCost_sublist List.filter_sublist).trans h, hm.preceding⟩⟩, rfl⟩
  · rw [if_neg hsync]
    exact setEngine (applyPrivateModes_steps hP h enabled _)

end Quiet

end Voytty.Terminal
