import Voytty.Cli.HostInputChunks

/-!
# Bytes of input

Where the bytes of the user's input go. A pass of the codec takes bytes off the
front of what is pending, and the events it emits carry just those bytes
(`Passed`); a pass that waits leaves no more than the bound of what it waits
for. So every byte of a stream is carried by one event, counted in one reply or
still pending, and an event that is delivered is made of bytes read under the
current epoch.
-/

namespace Voytty.Cli

open Voytty.Lib Voytty.Terminal

/-! ## What events carry -/

/-- The bytes an event stands for: any that a reply counts, and just its own otherwise. -/
def HostInputEvent.Spans (event : HostInputEvent) (piece : List UInt8) : Prop :=
  match event with
  | .terminalReply _ count => piece.length = count
  | event => piece = event.childBytes

/-- Events carry bytes: each a piece of its own, in order. -/
def Carries (events : List HostInputEvent) (bytes : List UInt8) : Prop :=
  ∃ pieces, List.Forall₂ HostInputEvent.Spans events pieces ∧ pieces.flatten = bytes

variable {event : HostInputEvent} {events more : List HostInputEvent} {bs cs : List UInt8}

theorem Carries.nil : Carries [] [] := ⟨[], .nil, rfl⟩

theorem Carries.append (h : Carries events bs) (h' : Carries more cs) :
    Carries (events ++ more) (bs ++ cs) := by
  obtain ⟨pieces, hpieces, rfl⟩ := h
  obtain ⟨pieces', hpieces', rfl⟩ := h'
  exact ⟨pieces ++ pieces', List.rel_append hpieces hpieces', List.flatten_append⟩

theorem Carries.one (h : event.Spans bs) : Carries [event] bs :=
  ⟨[bs], .cons h .nil, by simp⟩

theorem Carries.concat_inv (h : Carries (events ++ [event]) bs) :
    ∃ before piece, bs = before ++ piece ∧ Carries events before ∧ event.Spans piece := by
  obtain ⟨pieces, hpieces, rfl⟩ := h
  induction events generalizing pieces with
  | nil =>
    cases hpieces with
    | cons hspan hrest => cases hrest; exact ⟨[], _, by simp, .nil, hspan⟩
  | cons first events ih =>
    cases hpieces with
    | cons hspan hrest =>
      obtain ⟨before, piece, heq, hevents, hpiece⟩ := ih _ hrest
      refine ⟨_ ++ before, piece, ?_, (Carries.one hspan).append hevents, hpiece⟩
      rw [List.flatten_cons, heq, List.append_assoc]

theorem Carries.push (h : Carries events bs) (h' : event.Spans cs) :
    Carries (pushEvent events event) (bs ++ cs) := by
  unfold pushEvent
  split
  · rename_i previous bytes hlast
    obtain ⟨init, rfl⟩ := List.getLast?_eq_some_iff.1 hlast
    obtain ⟨before, piece, rfl, hinit, hpiece⟩ := h.concat_inv
    have hjoined : (HostInputEvent.bytes (previous ++ bytes)).Spans (piece ++ cs) :=
      congrArg₂ (· ++ ·) hpiece h'
    simpa using hinit.append (.one hjoined)
  · exact h.append (.one h')

theorem Carries.pushAll (h : Carries events bs) (h' : Carries more cs) :
    Carries (more.foldl pushEvent events) (bs ++ cs) := by
  obtain ⟨pieces, hpieces, rfl⟩ := h'
  induction hpieces generalizing events bs with
  | nil => simpa using h
  | cons hspan _ ih => simpa using ih (h.push hspan)

theorem SgrMouse.parse_raw {mouse : SgrMouse} (h : SgrMouse.parse bs = some mouse) :
    mouse.raw = bs := by
  simp only [SgrMouse.parse, Option.bind_eq_bind, Option.bind_eq_some_iff] at h
  obtain ⟨body, -, h⟩ := h
  split at h
  · simp only [Option.bind_eq_some_iff] at h
    obtain ⟨code, -, column, -, row, -, h⟩ := h
    split at h
    · cases h
    · cases h; rfl
  · cases h

namespace EnhancedKey

variable {key : EnhancedKey} {parameters : List UInt8}

theorem parseCsiU_raw (h : parseCsiU bs parameters = some key) : key.raw = bs := by
  unfold parseCsiU at h
  split at h
  · rename_i field fields _
    by_cases hlen : fields.length > 2
    · simp [hlen] at h
    · simp only [hlen, ↓reduceIte, Option.bind_eq_bind, Option.bind_eq_some_iff, Option.pure_def] at h
      obtain ⟨_, -, _, -, _, -, h⟩ := h
      cases h
      rfl
  · cases h

theorem parseTilde_raw (h : parseTilde bs parameters = some key) : key.raw = bs := by
  simp only [parseTilde, Option.bind_eq_bind, Option.bind_eq_some_iff] at h
  obtain ⟨_, -, _, -, h⟩ := h
  cases h
  rfl

theorem parseLetter_raw {final : UInt8} (h : parseLetter bs parameters final = some key) :
    key.raw = bs := by
  simp only [parseLetter, Option.bind_eq_bind, Option.bind_eq_some_iff] at h
  obtain ⟨code, -, h⟩ := h
  split at h
  · cases h
    rfl
  · obtain ⟨_, -, h⟩ := Option.bind_eq_some_iff.1 h
    split at h
    · cases h
    · cases h
      rfl

theorem parse_raw (h : parse bs = some key) : key.raw = bs := by
  unfold parse at h
  split at h
  · split at h
    · cases h
    · dsimp only at h
      split at h
      · exact parseCsiU_raw h
      split at h
      · exact parseTilde_raw h
      · exact parseLetter_raw h
  · cases h
end EnhancedKey

namespace HostInputCodec

variable {v : Vendor} {c c' : HostInputCodec} {out : List HostInputEvent} {n : Nat}

structure Bounded (c : HostInputCodec) : Prop where
  paste : c.pending.length ≤ resumeInputBound
  osc : c.inPaste = false → c.pending.length ≤ oscBound
  sequence : c.inPaste = false → c.discardingOsc = false → oscIntroducer c.pending = none →
    c.pending.length < hostSequenceBound

theorem Bounded.of_short (h : c.pending.length < hostSequenceBound) : c.Bounded := by
  have hsequence : hostSequenceBound = 64 := rfl
  have hosc : oscBound = 1024 := rfl
  have hpaste : resumeInputBound = 1047552 := rfl
  exact ⟨by omega, fun _ => by omega, fun _ _ _ => h⟩

def weight (c : HostInputCodec) : Nat := 2 * c.pending.length + if c.inPaste then 0 else 1

/-- What a pass does to the pending bytes. -/
inductive Passed (c : HostInputCodec) : Turn → Prop where
  | go {out : List HostInputEvent} {c' : HostInputCodec} {taken : List UInt8}
      (pending : c.pending = taken ++ c'.pending) (carries : Carries out taken)
      (less : c'.weight < c.weight) : Passed c (.go out c')
  | stop {out : List HostInputEvent} {c' : HostInputCodec} {taken : List UInt8}
      (pending : c.pending = taken ++ c'.pending) (carries : Carries out taken)
      (bounded : c'.Bounded) : Passed c (.stop out c')
  | fail (paste : c.inPaste = true) (long : resumeInputBound < c.pending.length) :
      Passed c (.fail pasteInputOverflow)

theorem Passed.drop (hp : c.pending ≠ []) (hn : 0 < n) (hd : c'.pending = c.pending.drop n)
    (hout : Carries out (c.pending.take n)) : c.Passed (.go out c') := by
  refine .go (by rw [hd, List.take_append_drop]) hout ?_
  have hlen := List.length_pos_of_ne_nil hp
  simp only [weight, hd, List.length_drop]
  split <;> split <;> omega

theorem Passed.waits (h : c.Bounded) : c.Passed (.stop [] c) := .stop rfl .nil h

theorem carries_take {reply : HostReply} (bytes : List UInt8) (h : n ≤ bytes.length) :
    Carries [.terminalReply reply n] (bytes.take n) :=
  .one (List.length_take_of_le h)

theorem altLength_bounds (second : UInt8) :
    0 < altLength second ∧ altLength second < hostSequenceBound := by
  simp only [altLength, tailLength, show hostSequenceBound = 64 from rfl]
  repeat' split
  all_goals omega

theorem hostByte_spans (byte : UInt8) : (hostByte byte).Spans [byte] := by
  unfold hostByte
  split
  · rename_i hbyte; rw [hbyte]; rfl
  · rfl

theorem plainTurn_passed : c.Passed c.plainTurn := by
  cases hp : c.pending with
  | nil =>
    rw [plainTurn, hp]
    exact .waits (.of_short (by rw [hp]; decide))
  | cons first rest =>
    have hne : c.pending ≠ [] := hp ▸ List.cons_ne_nil _ _
    cases hknown : knownHostPrefix c.pending with
    | true =>
      have hturn : c.plainTurn = .stop [] c := by
        simp only [plainTurn, hp]
        rw [← hp, if_pos hknown]
      refine hturn ▸ .waits (.of_short ?_)
      simp only [knownHostPrefix, Bool.or_eq_true, List.isPrefixOf_iff_prefix] at hknown
      rcases hknown with ((h | h) | h) | h <;> exact h.length_le.trans_lt (by decide)
    | false =>
      obtain ⟨hpos, hshort⟩ := altLength_bounds (rest.head?.getD 0)
      rw [plainTurn_cons hp hknown]
      split
      · split
        · rename_i hlen
          exact .waits (.of_short (hlen.trans hshort))
        · exact .drop hne hpos rfl (.one rfl)
      · refine .drop hne Nat.one_pos (by rw [hp]; rfl) (.one ?_)
        rw [hp]
        exact hostByte_spans first

theorem sequenceEvent_spans (raw : List UInt8) : (sequenceEvent raw).Spans raw := by
  unfold sequenceEvent
  split
  · rfl
  split
  · rfl
  · cases hkey : EnhancedKey.parse raw with
    | none => rfl
    | some key => exact (EnhancedKey.parse_raw hkey).symm

theorem sequenceTurn_passed {start : Nat} (hp : c.pending ≠ []) :
    c.Passed (c.sequenceTurn start) := by
  unfold sequenceTurn
  split
  · exact .drop hp (Nat.succ_pos _) rfl (.one (sequenceEvent_spans _))
  split
  · rename_i hshort
    exact .waits (.of_short hshort)
  split
  · exact .stop (List.append_nil _).symm (.one rfl) (.of_short (Nat.zero_lt_succ 63))
  · exact plainTurn_passed

theorem framedTurn_passed (hp : c.pending ≠ []) : c.Passed c.framedTurn := by
  unfold framedTurn
  split
  · exact sequenceTurn_passed hp
  · exact plainTurn_passed

theorem mouseTurn_passed (hp : c.pending ≠ []) : c.Passed c.mouseTurn := by
  unfold mouseTurn
  split
  · refine .drop hp (Nat.succ_pos _) rfl (.one ?_)
    cases hmouse : SgrMouse.parse (c.pending.take _) with
    | none => rfl
    | some mouse => exact (SgrMouse.parse_raw hmouse).symm
  split
  · rename_i hshort
    exact .waits (.of_short hshort)
  · exact framedTurn_passed hp

theorem oscReplies_ne_nil (body : List UInt8) : oscReplies v body ≠ [] := by
  have hsome : ∀ replies : List HostReply,
      (if replies.isEmpty then [.ignored] else replies) ≠ [] := by
    intro replies
    split
    · nofun
    · rename_i h; simpa using h
  unfold oscReplies
  split
  · nofun
  split
  · nofun
  split
  · nofun
  · exact hsome _

/-- The first reply of a command accounts for its bytes, and the others for none. -/
theorem laterReplies_carry (rest : List HostReply) (k : Nat) : Carries ((rest.zipIdx (k + 1)).map
    fun (reply, index) => .terminalReply reply (if index = 0 then n else 0)) [] := by
  induction rest generalizing k with
  | nil => exact .nil
  | cons reply rest ih => exact (carries_take [] (Nat.zero_le 0)).append (ih (k + 1))

theorem replyEvents_carries {replies : List HostReply} (hne : replies ≠ []) (hn : bs.length = n) :
    Carries (replyEvents replies n) bs := by
  obtain ⟨first, rest, rfl⟩ := List.exists_cons_of_ne_nil hne
  have hfirst : (HostInputEvent.terminalReply first n).Spans bs := hn
  simpa [replyEvents] using (Carries.one hfirst).append (laterReplies_carry rest 0)

theorem oscTurn_passed {start : Nat} (hp : c.pending ≠ [])
    (hin : c.discardingOsc = false → oscIntroducer c.pending ≠ none) :
    c.Passed (c.oscTurn v start) := by
  unfold oscTurn
  split
  · rename_i index length hscan
    obtain ⟨-, hlen, hpos⟩ := oscScan_ok [] hscan
    rw [List.length_drop] at hlen
    refine .drop hp (by omega) rfl (replyEvents_carries ?_ (List.length_take_of_le (by omega)))
    split
    · nofun
    · exact oscReplies_ne_nil _
  · rename_i tail hscan
    split
    · refine .stop (List.take_append_drop _ _).symm (carries_take _ (Nat.sub_le _ _)) (.of_short ?_)
      have hbound : hostSequenceBound = 64 := rfl
      simp only [drop, List.length_drop]
      split <;> omega
    · rename_i hlen
      have hosc : oscBound = 1024 := rfl
      have hresume : resumeInputBound = 1047552 := rfl
      exact .waits ⟨by omega, fun _ => by omega, fun _ h hnone => absurd hnone (hin h)⟩

theorem unitTurn_passed (hp : c.pending ≠ []) : c.Passed (c.unitTurn v) := by
  have hpage : ∀ (page : List UInt8) {event : HostInputEvent}, page ≠ [] →
      page.isPrefixOf c.pending = true → event.Spans page →
      c.Passed (.go [event] (c.drop page.length)) := by
    intro page event hne hpre hspan
    have htake := List.prefix_iff_eq_take.1 (List.isPrefixOf_iff_prefix.1 hpre)
    exact .drop hp (List.length_pos_of_ne_nil hne) rfl (htake ▸ .one hspan)
  unfold unitTurn
  split
  · rename_i hosc
    exact oscTurn_passed hp fun h => by rw [hosc] at h; cases h
  split
  · rename_i start hstart
    exact oscTurn_passed hp fun _ => by rw [hstart]; nofun
  split
  · rename_i hup
    exact hpage pageUpBytes nofun hup rfl
  split
  · rename_i hdown
    exact hpage pageDownBytes nofun hdown rfl
  split
  · exact mouseTurn_passed hp
  · exact framedTurn_passed hp

theorem pasteTurn_passed (hp : c.pending ≠ []) (hpaste : c.inPaste = true) :
    c.Passed c.pasteTurn := by
  unfold pasteTurn
  split
  · rename_i index hfound
    have hlen := (findBytes_append [] hfound).2
    dsimp only
    split
    · rename_i hlong
      exact .fail hpaste (by omega)
    · exact .drop hp (Nat.lt_add_left _ (by decide)) rfl (.one rfl)
  split
  · rename_i hlong
    exact .fail hpaste hlong
  · rename_i hshort
    refine .waits ⟨by omega, fun h => ?_, fun h => ?_⟩ <;> rw [hpaste] at h <;> cases h

theorem turn_passed (hp : c.pending ≠ []) : c.Passed (c.turn v) := by
  unfold turn
  split
  · rename_i hpaste
    exact pasteTurn_passed hp hpaste
  rename_i hpaste
  split
  · refine .go (List.nil_append _).symm .nil ?_
    simp [weight, hpaste]
  split
  · unfold discardTurn
    split
    · rename_i index hfound
      exact .drop hp (Nat.succ_pos _) rfl (carries_take _ (findIdx?_lt hfound))
    · refine .drop hp (List.length_pos_of_ne_nil hp) List.drop_length.symm ?_
      exact carries_take _ le_rfl
  split
  · obtain ⟨first, rest, hcons⟩ := List.exists_cons_of_ne_nil hp
    refine .drop hp Nat.one_pos rfl ?_
    rw [hcons]
    exact .one (hostByte_spans first)
  · have hunit : Passed { c with utf8Tail := 0 } _ := unitTurn_passed (v := v) hp
    revert hunit
    generalize unitTurn { c with utf8Tail := 0 } v = result
    rintro (⟨hpending, hcarries, hless⟩ | ⟨hpending, hcarries, hbounded⟩ | ⟨hpaste, hlong⟩)
    · exact .go hpending hcarries hless
    · exact .stop hpending hcarries hbounded
    · exact .fail hpaste hlong

/-! ## Runs -/

/-- What becomes of bytes, after those the events so far carry: events carry them in order up to
what is pending within the bounds, or a paste among them is too long. -/
def Looped (done bytes : List UInt8) :
    Except DaemonError (List HostInputEvent × HostInputCodec) → Prop
  | .ok (events, c) => ∃ taken, bytes = taken ++ c.pending ∧ Carries events (done ++ taken) ∧ c.Bounded
  | .error error => error = pasteInputOverflow ∧
      ∃ taken paste rest, bytes = taken ++ paste ++ rest ∧ resumeInputBound < paste.length

theorem Looped.after {done taken bytes : List UInt8}
    {result : Except DaemonError (List HostInputEvent × HostInputCodec)}
    (h : Looped (done ++ taken) bytes result) : Looped done (taken ++ bytes) result := by
  cases result with
  | ok done =>
    obtain ⟨more, rfl, hcarries, hbounded⟩ := h
    exact ⟨taken ++ more, by rw [List.append_assoc], by rwa [← List.append_assoc], hbounded⟩
  | error error =>
    obtain ⟨rfl, more, paste, rest, rfl, hlong⟩ := h
    exact ⟨rfl, taken ++ more, paste, rest, by simp only [List.append_assoc], hlong⟩

theorem loop_idle (hp : c.pending = []) (fuel : Nat) : loop v fuel events c = .ok (events, c) := by
  cases fuel with
  | zero => rfl
  | succ fuel => rw [loop, if_pos (by simpa using hp)]

theorem pending_of_weight (h : c.weight ≤ 0) : c.pending = [] := by
  rw [← List.length_eq_zero_iff]
  unfold weight at h
  omega

theorem loop_looped {fuel : Nat} {done : List UInt8} (hfuel : c.weight ≤ fuel)
    (h : Carries events done) : Looped done c.pending (loop v fuel events c) := by
  induction fuel generalizing c events done with
  | zero =>
    have hp := pending_of_weight hfuel
    exact ⟨[], rfl, by simpa using h, .of_short (by rw [hp]; decide)⟩
  | succ fuel ih =>
    by_cases hp : c.pending = []
    · rw [loop_idle hp]
      exact ⟨[], rfl, by simpa using h, .of_short (by rw [hp]; decide)⟩
    have hpassed := turn_passed (v := v) hp
    rw [loop, if_neg (by simpa using hp)]
    generalize c.turn v = result at hpassed
    cases hpassed with
    | @go out c' taken hpending hcarries hless =>
      have hfuel' : c'.weight ≤ fuel := by omega
      rw [hpending]
      exact (ih hfuel' (h.pushAll hcarries)).after
    | stop hpending hcarries hbounded => exact ⟨_, hpending, h.pushAll hcarries, hbounded⟩
    | fail _ hlong => exact ⟨rfl, [], c.pending, [], by simp, hlong⟩

theorem loop_fuel {fuel : Nat} (hfuel : c.weight ≤ fuel) (extra : Nat) :
    loop v (fuel + extra) events c = loop v fuel events c := by
  induction fuel generalizing c events with
  | zero => rw [loop_idle (pending_of_weight hfuel), loop_idle (pending_of_weight hfuel)]
  | succ fuel ih =>
    by_cases hp : c.pending = []
    · rw [loop_idle hp, loop_idle hp]
    have hpassed := turn_passed (v := v) hp
    rw [Nat.add_right_comm, loop, loop, if_neg (by simpa using hp), if_neg (by simpa using hp)]
    generalize c.turn v = result at hpassed
    cases hpassed with
    | go _ _ hless => exact ih (by omega)
    | stop | fail => rfl

theorem weight_extend (bytes : List UInt8) :
    (c.extend bytes).weight ≤ 2 * (c.extend bytes).pending.length + 1 := by
  unfold weight
  split <;> omega

/-- Chunks fed one after the other; an error ends them. -/
def feedAll (v : Vendor) : HostInputCodec → List (List UInt8) →
    Except DaemonError (List HostInputEvent × HostInputCodec)
  | c, [] => .ok ([], c)
  | c, chunk :: chunks => do
    let (events, c) ← c.feed v chunk
    let (more, c) ← feedAll v c chunks
    return (events ++ more, c)

theorem feedAll_looped (v : Vendor) (chunks : List (List UInt8)) (h : c.Bounded) :
    Looped [] (c.pending ++ chunks.flatten) (c.feedAll v chunks) := by
  induction chunks generalizing c with
  | nil => exact ⟨[], by simp, .nil, h⟩
  | cons chunk chunks ih =>
    have hfeed : Looped [] (c.pending ++ chunk) (c.feed v chunk) :=
      loop_looped (weight_extend chunk) .nil
    rw [List.flatten_cons, ← List.append_assoc, feedAll]
    generalize c.feed v chunk = fed at hfeed
    cases fed with
    | error error =>
      obtain ⟨rfl, taken, paste, rest, heq, hlong⟩ := hfeed
      exact ⟨rfl, taken, paste, rest ++ chunks.flatten, by rw [heq, List.append_assoc], hlong⟩
    | ok fed =>
      obtain ⟨events, c'⟩ := fed
      obtain ⟨taken, heq, hcarries, hbounded⟩ := hfeed
      have hrest := ih hbounded
      rw [heq, List.append_assoc]
      change Looped [] _ (c'.feedAll v chunks >>= _)
      generalize c'.feedAll v chunks = rest at hrest
      cases rest with
      | error error =>
        have hfailed : Looped ([] ++ taken) _ (.error error) := hrest
        exact hfailed.after
      | ok rest =>
        obtain ⟨taken', heq', hcarries', hbounded'⟩ := hrest
        exact ⟨taken ++ taken', by rw [heq', List.append_assoc], hcarries.append hcarries', hbounded'⟩

end HostInputCodec

open HostInputCodec

/-- However a stream is cut into chunks, its bytes are carried in order by the events, counted in
replies, or pending within the bounds, unless a paste is longer than its bound; and every feed ends. -/
theorem input_conserved (v : Vendor) (chunks : List (List UInt8)) :
    (match HostInputCodec.new.feedAll v chunks with
      | .ok (events, c) => ∃ pieces, List.Forall₂ HostInputEvent.Spans events pieces ∧
          chunks.flatten = pieces.flatten ++ c.pending ∧ c.Bounded
      | .error error => error = pasteInputOverflow ∧
          ∃ taken paste rest, chunks.flatten = taken ++ paste ++ rest ∧
            resumeInputBound < paste.length) ∧
      ∀ (c : HostInputCodec) (bytes : List UInt8) (extra : Nat),
        (c.extend bytes).loop v (2 * (c.extend bytes).pending.length + 1 + extra) [] =
          c.feed v bytes := by
  refine ⟨?_, fun c bytes extra => loop_fuel (weight_extend bytes) extra⟩
  have hall := feedAll_looped v chunks (c := HostInputCodec.new) (.of_short (by decide))
  rw [show HostInputCodec.new.pending = [] from rfl, List.nil_append] at hall
  generalize HostInputCodec.new.feedAll v chunks = result at hall
  cases result with
  | ok done =>
    obtain ⟨taken, htaken, ⟨pieces, hpieces, hflatten⟩, hbounded⟩ := hall
    exact ⟨pieces, hpieces, by rw [hflatten, htaken]; rfl, hbounded⟩
  | error error => exact hall

/-! ## Lifetimes -/

/-- A piece of input: its bytes, the epoch and the geometry it was read under, and those current
when it is processed. -/
structure HostRead where
  bytes : List UInt8
  lifetime : Nat × Nat
  current : Nat × Nat

def HostRead.stamped (r : HostRead) : List (UInt8 × Nat × Nat) := r.bytes.map (·, r.lifetime)

/-- Made of the bytes of a piece, all read under the current epoch and, for a pointer report, the
current geometry; replies are exempt. -/
def HostInputEvent.Fresh (r : HostRead) (event : HostInputEvent)
    (piece : List (UInt8 × Nat × Nat)) : Prop :=
  event.Spans (piece.map Prod.fst) ∧
    match event with
    | .terminalReply .. => True
    | .mouse _ => ∀ b ∈ piece, b.2 = r.current
    | _ => ∀ b ∈ piece, b.2.1 = r.current.1

namespace LifetimeCodec

def readAll (v : Vendor) : LifetimeCodec → List HostRead →
    Except DaemonError (List (List HostInputEvent) × LifetimeCodec)
  | c, [] => .ok ([], c)
  | c, r :: reads => do
    let (delivered, c) ←
      c.feedForLifetimes v r.bytes r.lifetime.1 r.current.1 r.lifetime.2 r.current.2
    let (more, c) ← readAll v c reads
    return (delivered :: more, c)

def source (c : LifetimeCodec) (next : Nat × Nat) : Nat × Nat :=
  (c.pendingEpoch.getD next.1, c.pendingGeometry.getD next.2)

/-- The pending bytes with what they were read under: nothing older than what the next read is
judged by. -/
structure Sourced (c : LifetimeCodec) (pending : List (UInt8 × Nat × Nat)) (last : Nat × Nat) :
    Prop where
  bytes : pending.map Prod.fst = c.codec.pending
  upto : ∀ b ∈ pending, b.2 ≤ last
  since : ∀ next, last ≤ next → c.source next ≤ next ∧ ∀ b ∈ pending, c.source next ≤ b.2

theorem pieces_of_map {α β : Type} {f : α → β} {l : List α} {pieces : List (List β)}
    {rest : List β} (h : l.map f = pieces.flatten ++ rest) :
    ∃ (ps : List (List α)) (r : List α), l = ps.flatten ++ r ∧
      ps.map (List.map f) = pieces ∧ r.map f = rest := by
  induction pieces generalizing l with
  | nil => exact ⟨[], l, rfl, rfl, h⟩
  | cons piece pieces ih =>
    rw [List.flatten_cons, List.append_assoc] at h
    obtain ⟨p, l', rfl, rfl, hl'⟩ := List.map_eq_append_iff.1 h
    obtain ⟨ps, r, rfl, rfl, rfl⟩ := ih hl'
    exact ⟨p :: ps, r, by simp, rfl, rfl⟩

theorem filter_pieces {α β : Type} {R : α → β → Prop} (f : α → Bool) {as : List α} {bs : List β}
    (h : List.Forall₂ R as bs) :
    ∃ kept, kept.Sublist bs ∧
      List.Forall₂ (fun a b => R a b ∧ f a = true ∧ b ∈ bs) (as.filter f) kept := by
  induction h with
  | nil => exact ⟨[], .slnil, .nil⟩
  | @cons a b as bs hab _ ih =>
    obtain ⟨kept, hsub, hkept⟩ := ih
    have hmore : List.Forall₂ (fun a b' => R a b' ∧ f a = true ∧ b' ∈ b :: bs) (as.filter f) kept :=
      hkept.imp fun _ _ h => ⟨h.1, h.2.1, List.mem_cons_of_mem b h.2.2⟩
    cases hf : f a with
    | true =>
      rw [List.filter_cons_of_pos hf]
      exact ⟨b :: kept, hsub.cons_cons b, .cons ⟨hab, hf, List.mem_cons_self⟩ hmore⟩
    | false =>
      rw [List.filter_cons_of_neg (by simp [hf])]
      exact ⟨kept, hsub.cons b, hmore⟩

variable {v : Vendor} {c c' : LifetimeCodec} {pending : List (UInt8 × Nat × Nat)}
  {last : Nat × Nat} {r : HostRead} {delivered : List HostInputEvent}

theorem Sourced.read (h : c.Sourced pending last) (hr : last ≤ r.lifetime)
    (hread : c.feedForLifetimes v r.bytes r.lifetime.1 r.current.1 r.lifetime.2 r.current.2 =
      .ok (delivered, c')) :
    ∃ pieces pending', pending ++ r.stamped = pieces.flatten ++ pending' ∧
      (∃ kept, kept.Sublist pieces ∧ List.Forall₂ (HostInputEvent.Fresh r) delivered kept) ∧
      c'.Sourced pending' r.lifetime := by
  have hfeed : Looped [] (c.codec.pending ++ r.bytes) (c.codec.feed v r.bytes) :=
    loop_looped (weight_extend r.bytes) .nil
  unfold feedForLifetimes at hread
  generalize c.codec.feed v r.bytes = fed at hfeed hread
  obtain error | ⟨events, codec⟩ := fed
  · cases hread
  cases hread
  obtain ⟨taken, htaken, ⟨pieces, hpieces, rfl⟩, -⟩ := hfeed
  have hbytes : (pending ++ r.stamped).map Prod.fst = pieces.flatten ++ codec.pending := by
    rw [List.map_append, h.bytes, HostRead.stamped, List.map_map, ← htaken]
    exact congrArg _ (List.map_id r.bytes)
  obtain ⟨ps, pending', hsplit, rfl, hpending'⟩ := pieces_of_map hbytes
  -- every byte at hand was read between what the read is judged by and the read
  obtain ⟨hsource, hsince⟩ := h.since r.lifetime hr
  have hbetween : ∀ b ∈ pending ++ r.stamped, c.source r.lifetime ≤ b.2 ∧ b.2 ≤ r.lifetime := by
    intro b hb
    rcases List.mem_append.1 hb with hb | hb
    · exact ⟨hsince b hb, (h.upto b hb).trans hr⟩
    · obtain ⟨byte, -, rfl⟩ := List.mem_map.1 hb
      exact ⟨hsource, le_rfl⟩
  rw [hsplit] at hbetween
  refine ⟨ps, pending', hsplit, ?_, hpending', fun b hb => ?_, fun next hnext => ?_⟩
  · rw [List.filter_filter]
    obtain ⟨kept, hsub, hkept⟩ := filter_pieces _ (List.forall₂_map_right_iff.1 hpieces)
    refine ⟨kept, hsub, hkept.imp fun event piece hpiece => ⟨hpiece.1, ?_⟩⟩
    have hall : ∀ b ∈ piece, c.source r.lifetime ≤ b.2 ∧ b.2 ≤ r.lifetime := fun b hb =>
      hbetween b (List.mem_append_left _ (List.mem_flatten_of_mem hpiece.2.2 hb))
    have hepoch : r.lifetime.1 = r.current.1 → (c.source r.lifetime).1 = r.current.1 →
        ∀ b ∈ piece, b.2.1 = r.current.1 := fun h₁ h₂ b hb =>
      le_antisymm ((hall b hb).2.1.trans h₁.le) (h₂.ge.trans (hall b hb).1.1)
    have hgeometry : r.lifetime.2 = r.current.2 → (c.source r.lifetime).2 = r.current.2 →
        ∀ b ∈ piece, b.2.2 = r.current.2 := fun h₁ h₂ b hb =>
      le_antisymm ((hall b hb).2.2.trans h₁.le) (h₂.ge.trans (hall b hb).1.2)
    have hpass := hpiece.2.1
    cases event with
    | terminalReply => trivial
    | mouse =>
      simp only [Bool.and_eq_true, decide_eq_true_eq] at hpass
      obtain ⟨⟨h₁, h₂⟩, h₃, h₄⟩ := hpass
      exact fun b hb => Prod.ext (hepoch h₁ h₂ b hb) (hgeometry h₃ h₄ b hb)
    | _ =>
      simp only [Bool.and_true, Bool.and_eq_true, decide_eq_true_eq] at hpass
      exact hepoch hpass.1 hpass.2
  · exact (hbetween b (List.mem_append_right _ hb)).2
  · cases hmid : codec.midUnit with
    | true =>
      exact ⟨hsource.trans hnext, fun b hb => (hbetween b (List.mem_append_right _ hb)).1⟩
    | false =>
      have hempty : codec.pending = [] := by
        simp only [midUnit, Bool.or_eq_false_iff, Bool.not_eq_false'] at hmid
        simpa using hmid.1.1.1
      rw [hempty, List.map_eq_nil_iff] at hpending'
      subst hpending'
      exact ⟨le_rfl, nofun⟩

theorem Sourced.readAll {reads : List HostRead} {deliveries : List (List HostInputEvent)}
    (h : c.Sourced pending last) (horder : (last :: reads.map HostRead.lifetime).Pairwise (· ≤ ·))
    (hreads : c.readAll v reads = .ok (deliveries, c')) :
    ∃ pieces pending', pending ++ reads.flatMap HostRead.stamped =
        pieces.flatten.flatten ++ pending' ∧ pending'.map Prod.fst = c'.codec.pending ∧
      List.Forall₂ (fun (read : HostRead × List HostInputEvent) ps =>
          ∃ kept, kept.Sublist ps ∧ List.Forall₂ (HostInputEvent.Fresh read.1) read.2 kept)
        (reads.zip deliveries) pieces := by
  induction reads generalizing c pending last deliveries with
  | nil =>
    cases hreads
    exact ⟨[], pending, by simp, h.bytes, .nil⟩
  | cons r reads ih =>
    rw [readAll] at hreads
    obtain ⟨⟨delivered, c₁⟩, hread, hreads⟩ := bind_ok.1 hreads
    obtain ⟨⟨more, c₂⟩, hmore, hreads⟩ := bind_ok.1 hreads
    cases hreads
    obtain ⟨hfirst, horder⟩ := List.pairwise_cons.1 horder
    obtain ⟨pieces, pending₁, hsplit, hfresh, hsourced⟩ :=
      h.read (hfirst _ List.mem_cons_self) hread
    obtain ⟨rest, pending', hrest, hbytes, hall⟩ := ih hsourced horder hmore
    refine ⟨pieces :: rest, pending', ?_, hbytes, .cons hfresh hall⟩
    rw [List.flatMap_cons, ← List.append_assoc, hsplit, List.append_assoc, hrest]
    simp only [List.flatten_cons, List.flatten_append, List.append_assoc]

end LifetimeCodec

/-- No event but a reply is delivered with a byte read under an epoch that is not current, and no
pointer report with one read under another geometry, however the input is cut into reads. -/
theorem stale_input_dropped {v : Vendor} {reads : List HostRead}
    {deliveries : List (List HostInputEvent)} {c : LifetimeCodec}
    (horder : (reads.map HostRead.lifetime).Pairwise (· ≤ ·))
    (h : LifetimeCodec.readAll v ⟨.new, none, none⟩ reads = .ok (deliveries, c)) :
    ∃ pieces pending, reads.flatMap HostRead.stamped = pieces.flatten.flatten ++ pending ∧
      pending.map Prod.fst = c.codec.pending ∧
      List.Forall₂ (fun (read : HostRead × List HostInputEvent) ps =>
          ∃ kept, kept.Sublist ps ∧ List.Forall₂ (HostInputEvent.Fresh read.1) read.2 kept)
        (reads.zip deliveries) pieces := by
  have hstart : LifetimeCodec.Sourced ⟨.new, none, none⟩ [] (0, 0) :=
    ⟨rfl, nofun, fun next _ => ⟨le_rfl, nofun⟩⟩
  exact hstart.readAll
    (List.pairwise_cons.2 ⟨fun _ _ => ⟨Nat.zero_le _, Nat.zero_le _⟩, horder⟩) h

/-- A vendor that knows no colour by name and no address. -/
def HostInput.inertVendor : Vendor where
  alphaIsOne := fun _ => none
  intensity := fun _ => none
  colorName := fun _ => none
  charWidth := fun _ => some 1
  webUrl := fun _ => none
  base64Decode := fun _ => none
  base64Encode := fun _ => []

/-- A cursor key begun in one epoch and ended in the next, and a key after it. -/
def cursorKeyReads : List HostRead :=
  [⟨[0x61, 0x1b], (1, 0), (1, 0)⟩, ⟨[0x5b, 0x41], (2, 0), (2, 0)⟩, ⟨[0x63], (2, 0), (2, 0)⟩]

theorem stale_input_dropped_cursor_key :
    ∃ pieces pending, cursorKeyReads.flatMap HostRead.stamped = pieces.flatten.flatten ++ pending ∧
      pending.map Prod.fst = [] ∧
      List.Forall₂ (fun (read : HostRead × List HostInputEvent) ps =>
          ∃ kept, kept.Sublist ps ∧ List.Forall₂ (HostInputEvent.Fresh read.1) read.2 kept)
        (cursorKeyReads.zip [[.bytes [0x61]], [], [.bytes [0x63]]]) pieces := by
  have hreads : LifetimeCodec.readAll HostInput.inertVendor ⟨.new, none, none⟩ cursorKeyReads =
      .ok ([[.bytes [0x61]], [], [.bytes [0x63]]], ⟨.new, none, none⟩) := by decide +kernel
  exact stale_input_dropped (by simp [cursorKeyReads]) hreads

end Voytty.Cli
