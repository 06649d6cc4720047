import Voytty.Cli.HostInput

/-!
# Chunks of input

How the user's terminal hands over its input decides nothing: the units the
codec cuts a stream into, and with them the commands run, the bytes forwarded
and the replies recognised, are those of the stream read at once. The codec is
a decoder in the sense of `Lib.Incremental`; `cuts` is the case analysis of one
pass over input cut short.

The codec looks for the end of a control sequence before it looks at its
length, and for a paste before it ends an interrupted character, so the stream
has to be `tame`: no control sequence longer than the bound, no character cut
short by a paste, and pastes within their bound.
-/

namespace Voytty.Cli

open Voytty.Lib Voytty.Terminal

/-! ## Lists cut short -/

section Lists

variable {α : Type}

variable {p : α → Bool} {as : List α}

theorem findIdx?_append_left {i : Nat} (bs : List α) (h : as.findIdx? p = some i) :
    (as ++ bs).findIdx? p = some i := by
  rw [List.findIdx?_append, h]; rfl

theorem findIdx?_append_right (bs : List α) (h : as.findIdx? p = none) :
    (as ++ bs).findIdx? p = (bs.findIdx? p).map (· + as.length) := by
  rw [List.findIdx?_append, h]; rfl

theorem findIdx?_lt {i : Nat} (h : as.findIdx? p = some i) :
    i < as.length :=
  (List.findIdx?_eq_some_iff_findIdx_eq.1 h).1

theorem findIdx?_beyond {start bound : Nat} {bs : List α} (h : as.findIdx? p = none)
    (hlen : bound ≤ start + as.length)
    (hshort : ((as ++ bs).findIdx? p).all (start + · < bound) = true) : bs.findIdx? p = none := by
  rw [findIdx?_append_right bs h] at hshort
  cases hbs : bs.findIdx? p with
  | none => rfl
  | some index =>
    rw [hbs] at hshort
    simp only [Option.map_some, Option.all_some, decide_eq_true_eq] at hshort
    omega

end Lists

variable {p q : List UInt8}

/-- A fixed text begins a list and the list cut short alike, unless the latter is a proper
beginning of the text. -/
theorem isPrefixOf_append (text p q : List UInt8) (h : ¬ (p <+: text ∧ p ≠ text)) :
    text.isPrefixOf (p ++ q) = text.isPrefixOf p := by
  rw [Bool.eq_iff_iff, List.isPrefixOf_iff_prefix, List.isPrefixOf_iff_prefix]
  refine ⟨fun hpq => ?_, fun hp => hp.trans (List.prefix_append ..)⟩
  rcases List.prefix_or_prefix_of_prefix hpq (List.prefix_append p q) with htext | hp
  · exact htext
  · by_cases heq : p = text
    · rw [heq]
    · exact absurd ⟨hp, heq⟩ h

theorem isPrefixOf_left {text p : List UInt8} (q : List UInt8) (h : text.isPrefixOf p = true) :
    text.isPrefixOf (p ++ q) = true := by
  rw [List.isPrefixOf_iff_prefix] at h ⊢
  exact h.trans (List.prefix_append ..)

theorem findBytes_cut (needle p q : List UInt8) :
    findBytes needle p = (findBytes needle (p ++ q)).filter (· + needle.length ≤ p.length) := by
  induction p with
  | nil =>
    cases needle with
    | nil => cases q <;> rfl
    | cons byte needle => simp [findBytes]
  | cons byte p ih =>
    have hlonger : ∀ i, (i + 1 + needle.length ≤ p.length + 1) = (i + needle.length ≤ p.length) :=
      fun i => propext (by omega)
    rw [List.cons_append, findBytes, findBytes, ih]
    by_cases hhere : needle.isPrefixOf (byte :: p) = true
    · have hlen := (List.isPrefixOf_iff_prefix.1 hhere).length_le
      rw [if_pos hhere, if_pos (by exact isPrefixOf_left q hhere)]
      simp_all [Option.filter]
    rw [if_neg hhere]
    by_cases hthere : needle.isPrefixOf (byte :: (p ++ q)) = true
    · -- the occurrence ends in what follows, and so do all later ones
      have hlong : p.length + 1 < needle.length := by
        by_contra hlen
        refine hhere ?_
        rwa [← List.cons_append, isPrefixOf_append needle (byte :: p) q fun h => h.2
          (h.1.eq_of_length_le (by simp only [List.length_cons]; omega))] at hthere
      rw [if_pos hthere, Option.filter_eq_none_iff.2 fun i _ => by simp; omega]
      simp [Option.filter, hlong]
    · rw [if_neg hthere]
      cases findBytes needle (p ++ q) with
      | none => rfl
      | some i => simp only [Option.filter, Option.map_some, List.length_cons, hlonger]; split <;> rfl

theorem findBytes_append {needle : List UInt8} {i : Nat} (q : List UInt8)
    (h : findBytes needle p = some i) :
    findBytes needle (p ++ q) = some i ∧ i + needle.length ≤ p.length := by
  rw [findBytes_cut needle p q] at h
  simpa using Option.filter_eq_some_iff.1 h

theorem findBytes_none {needle : List UInt8} {i : Nat} (h : findBytes needle p = none)
    (hi : findBytes needle (p ++ q) = some i) : p.length < i + needle.length := by
  rw [findBytes_cut needle p q, hi] at h
  simpa using h

/-! ## Commands to the terminal's own replies -/

theorem shifted_ok {scan : Except Nat (Nat × Nat)} {i n : Nat}
    (h : scan.map (fun (i, n) => (i + 1, n)) = .ok (i, n)) : ∃ j, scan = .ok (j, n) ∧ i = j + 1 := by
  cases scan with
  | error t => cases h
  | ok found => cases h; exact ⟨_, rfl, rfl⟩

theorem oscScan_bounds {tail i n : Nat} (h : oscScan tail p = .ok (i, n)) :
    i + n ≤ p.length ∧ 0 < n := by
  induction p generalizing tail i n with
  | nil => cases h
  | cons byte p ih =>
    rw [List.length_cons]
    rw [oscScan] at h
    split at h
    · obtain ⟨j, hscan, rfl⟩ := shifted_ok h
      have := ih hscan
      omega
    split at h
    · cases h; simp
    split at h
    · cases p with
      | nil => simp_all
      | cons second p => cases h; simp
    · obtain ⟨j, hscan, rfl⟩ := shifted_ok h
      have := ih hscan
      omega

def keptEscape (p : List UInt8) : List UInt8 := if p.getLast? = some 0x1b then [0x1b] else []

theorem keptEscape_length (p : List UInt8) : (keptEscape p).length ≤ p.length := by
  cases p with
  | nil => rfl
  | cons byte p => unfold keptEscape; split <;> simp

theorem keptEscape_cons (byte : UInt8) (hp : p ≠ []) : keptEscape (byte :: p) = keptEscape p := by
  unfold keptEscape
  rw [List.getLast?_cons, List.getLast?_eq_some_getLast hp]
  rfl

theorem escape_not_tail : isTail 0x1b = false := by decide

theorem oscScan_escape (tail tail' : Nat) (q : List UInt8) :
    oscScan tail (0x1b :: q) = oscScan tail' (0x1b :: q) := by
  simp only [oscScan, escape_not_tail, Bool.false_eq_true, and_false, ↓reduceIte]

theorem oscScan_append (tail : Nat) (p q : List UInt8) :
    oscScan tail (p ++ q) =
      match oscScan tail p with
      | .ok found => .ok found
      | .error t => (oscScan t (keptEscape p ++ q)).map fun (i, n) =>
          (i + (p.length - (keptEscape p).length), n) := by
  induction p generalizing tail with
  | nil =>
    change oscScan _ q = (oscScan _ q).map fun (i, n) => (i + 0, n)
    cases oscScan tail q <;> rfl
  | cons byte p ih =>
    by_cases hlast : p = [] ∧ byte = 0x1b
    · -- the escape may begin a terminator with what follows
      obtain ⟨rfl, rfl⟩ := hlast
      rw [List.singleton_append, oscScan_escape tail 0, oscScan_escape tail 0 []]
      change oscScan 0 (0x1b :: q) = (oscScan 0 (0x1b :: q)).map fun (i, n) => (i + 0, n)
      cases oscScan 0 (0x1b :: q) <;> rfl
    have hkept : keptEscape (byte :: p) = keptEscape p := by
      by_cases hp : p = []
      · simp_all [keptEscape]
      · exact keptEscape_cons byte hp
    have hlen := keptEscape_length p
    have hshift : p.length + 1 - (keptEscape p).length = p.length - (keptEscape p).length + 1 := by
      omega
    have hrest : ∀ tail', (oscScan tail' (p ++ q)).map (fun (i, n) => (i + 1, n)) =
        match (oscScan tail' p).map (fun (i, n) => (i + 1, n)) with
        | .ok found => .ok found
        | .error t => (oscScan t (keptEscape (byte :: p) ++ q)).map fun (i, n) =>
            (i + ((byte :: p).length - (keptEscape (byte :: p)).length), n) := fun tail' => by
      rw [ih, hkept, List.length_cons, hshift]
      cases oscScan tail' p with
      | ok found => rfl
      | error t => cases hscan : oscScan t (keptEscape p ++ q) <;> simp [Except.map, hscan, Nat.add_assoc]
    have hesc : (byte = 0x1b ∧ (p ++ q).head? = some 0x5c) = (byte = 0x1b ∧ p.head? = some 0x5c) := by
      cases p with
      | nil => simp [show byte ≠ 0x1b from fun h => hlast ⟨rfl, h⟩]
      | cons second p => rfl
    simp only [List.cons_append, oscScan, hesc]
    split
    · exact hrest _
    split
    · rfl
    split
    · rfl
    · exact hrest _

theorem oscScan_ok {tail i n : Nat} (q : List UInt8) (h : oscScan tail p = .ok (i, n)) :
    oscScan tail (p ++ q) = .ok (i, n) ∧ i + n ≤ p.length ∧ 0 < n :=
  ⟨by rw [oscScan_append, h], oscScan_bounds h⟩

/-! ## The codec as an incremental decoder -/

/-- An event as the units it stands for; ordinary bytes are grouped as they come, and ignored
replies stand for nothing. -/
def HostInputEvent.units : HostInputEvent → List HostInputEvent
  | bytes bs => bs.map fun byte => .bytes [byte]
  | terminalReply .ignored _ => []
  | terminalReply reply _ => [.terminalReply reply 0]
  | event => [event]

/-- No control sequence, SS3 key or mouse report at the head of the bytes is longer than the
bound. -/
def sequencesShort (bytes : List UInt8) : Bool :=
  (!mouseStart.isPrefixOf bytes ||
      (bytes.findIdx? HostInputCodec.isMouseFinal).all (· < hostSequenceBound)) &&
    (HostInputCodec.introducer bytes).all fun start =>
      ((bytes.drop start).findIdx? isFinal).all (start + · < hostSequenceBound)

namespace HostInputCodec

variable {v : Vendor} {c : HostInputCodec}

def extend (c : HostInputCodec) (bytes : List UInt8) : HostInputCodec :=
  { c with pending := c.pending ++ bytes }

/-- A pass of the loop, which ends when nothing is pending. -/
def next (v : Vendor) (c : HostInputCodec) : Turn :=
  if c.pending.isEmpty then .stop [] c else c.turn v

/-- What lies ahead of the codec decodes alike however it is cut. -/
def tameState (c : HostInputCodec) : Bool :=
  if c.inPaste then
    match findBytes pasteEnd c.pending with
    | some index => index + pasteEnd.length ≤ resumeInputBound
    | none => c.pending.length ≤ resumeInputBound
  else if c.discardingOsc || c.discardingCsi then true
  else if pasteStart.isPrefixOf c.pending then c.utf8Tail = 0
  else if c.utf8Tail ≠ 0 && c.pending.head?.any isTail then true
  else sequencesShort c.pending

abbrev Run (v : Vendor) : HostInputCodec → List HostInputEvent → HostInputCodec → Prop :=
  Decodes (next v) HostInputEvent.units fun c => c.tameState = true

abbrev Cut (v : Vendor) : HostInputCodec → List UInt8 → Prop :=
  Cuts (next v) HostInputEvent.units (fun c => c.tameState = true) extend

@[simp] theorem extend_nil : c.extend [] = c := by simp [extend]

theorem pending_extend : (c.extend q).pending = c.pending ++ q := rfl

theorem extend_append (p q : List UInt8) : (c.extend p).extend q = c.extend (p ++ q) := by
  simp [extend]

theorem drop_extend {n : Nat} (q : List UInt8) (h : n ≤ c.pending.length) :
    (c.extend q).drop n = (c.drop n).extend q := by
  simp [extend, drop, List.drop_append_of_le_length h]

/-! ### Operating system commands -/

theorem drop_kept (p : List UInt8) :
    p.drop (p.length - (if p.getLast? = some 0x1b then 1 else 0)) = keptEscape p := by
  unfold keptEscape
  split
  · rename_i hlast
    obtain ⟨init, rfl⟩ := List.getLast?_eq_some_iff.1 hlast
    simp
  · simp

variable {start : Nat}

theorem keptEscape_drop (p : List UInt8) (h : start < p.length) :
    keptEscape (p.drop start) = keptEscape p := by
  simp only [keptEscape, List.getLast?_drop, Nat.not_le.2 h, ↓reduceIte]

theorem keptEscape_le_one (p : List UInt8) : (keptEscape p).length ≤ 1 := by
  unfold keptEscape; split <;> simp

theorem drop_keptEscape (p : List UInt8) :
    p.drop (p.length - (keptEscape p).length) = keptEscape p := by
  conv_rhs => rw [← drop_kept]
  unfold keptEscape
  split <;> rfl

def oscTail (c : HostInputCodec) : Nat := if c.discardingOsc then c.oscUtf8Tail else 0

theorem oscTurn_ignored {index length : Nat}
    (h : oscScan c.oscTail (c.pending.drop start) = .ok (index, length))
    (hignored : c.discardingOsc = true ∨ start + index + length > oscBound) :
    c.oscTurn v start = .go [.terminalReply .ignored (start + index + length)]
      { c.drop (start + index + length) with discardingOsc := false, oscUtf8Tail := 0 } := by
  have hscan : oscScan (if c.discardingOsc then c.oscUtf8Tail else 0) (c.pending.drop start) =
    .ok (index, length) := h
  rw [oscTurn, hscan]
  have : c.discardingOsc = true ∨ start + index + length > oscBound ∨
      (c.pending[start + index]? = some 0x18 ∨ c.pending[start + index]? = some 0x1a) := by tauto
  simp only [this, ↓reduceIte]
  rfl

theorem oscTurn_unended {tail : Nat} (h : oscScan c.oscTail (c.pending.drop start) = .error tail) :
    c.oscTurn v start =
      if c.pending.length > oscBound then
        .stop [.terminalReply .ignored
            (c.pending.length - (if c.pending.getLast? = some 0x1b then 1 else 0))]
          { c with
            pending := keptEscape c.pending
            discardingOsc := true
            oscUtf8Tail := tail }
      else .stop [] c := by
  have hscan : oscScan (if c.discardingOsc then c.oscUtf8Tail else 0) (c.pending.drop start) =
    .error tail := h
  rw [oscTurn, hscan]
  simp only [drop, drop_kept]

theorem oscTurn_cut (q : List UInt8) (hstart : start ≤ c.pending.length) :
    (∃ out c', c.oscTurn v start = .go out c' ∧
        (c.extend q).oscTurn v start = .go out (c'.extend q)) ∨
      c.oscTurn v start = .stop [] c ∨
      ∃ tail count, oscScan c.oscTail (c.pending.drop start) = .error tail ∧
        c.pending.length > oscBound ∧
        c.oscTurn v start = .stop [.terminalReply .ignored count]
          { c with
            pending := keptEscape c.pending
            discardingOsc := true
            oscUtf8Tail := tail } := by
  cases hfound : oscScan c.oscTail (c.pending.drop start) with
  | ok found =>
    obtain ⟨index, length⟩ := found
    obtain ⟨hq, hlen, hpos⟩ := oscScan_ok q hfound
    rw [List.length_drop] at hlen
    left
    have hdrop : (c.pending ++ q).drop start = c.pending.drop start ++ q :=
      List.drop_append_of_le_length hstart
    have htake : (c.pending ++ q).take (start + index) = c.pending.take (start + index) :=
      List.take_append_of_le_length (by omega)
    have hget : (c.pending ++ q)[start + index]? = c.pending[start + index]? :=
      List.getElem?_append_left (by omega)
    have hrest : (c.pending ++ q).drop (start + index + length) =
        c.pending.drop (start + index + length) ++ q :=
      List.drop_append_of_le_length (by omega)
    have hscan : oscScan (if c.discardingOsc then c.oscUtf8Tail else 0) (c.pending.drop start) =
      .ok (index, length) := hfound
    have hscan' : oscScan (if (c.extend q).discardingOsc then (c.extend q).oscUtf8Tail else 0)
        ((c.extend q).pending.drop start) = .ok (index, length) := by
      change oscScan c.oscTail ((c.pending ++ q).drop start) = _
      rw [hdrop, hq]
    refine ⟨_, _, by rw [oscTurn, hscan], ?_⟩
    rw [oscTurn, hscan']
    simp only [extend, drop, htake, hget, hrest]
  | error tail =>
    right
    rw [oscTurn_unended hfound]
    by_cases hlen : c.pending.length > oscBound
    · exact .inr ⟨tail, _, rfl, hlen, if_pos hlen⟩
    · exact .inl (if_neg hlen)

theorem oscTurn_resume {tail : Nat} {thrown : HostInputCodec} (q : List UInt8) (hstart : start ≤ 2)
    (hscan : oscScan c.oscTail (c.pending.drop start) = .error tail)
    (hlong : c.pending.length > oscBound)
    (hthrown : thrown = { c with pending := keptEscape c.pending, discardingOsc := true, oscUtf8Tail := tail }) :
    (∃ n n' after, (c.extend q).oscTurn v start = .go [.terminalReply .ignored n] after ∧
        (thrown.extend q).oscTurn v 0 = .go [.terminalReply .ignored n'] after) ∨
      (∃ n after, (c.extend q).oscTurn v start = .stop [.terminalReply .ignored n] after) ∧
        ∃ out after, (thrown.extend q).oscTurn v 0 = .stop out after ∧
          out.flatMap HostInputEvent.units = [] := by
  have hbound : oscBound = 1024 := rfl
  have hkept := keptEscape_drop c.pending (show start < c.pending.length by omega)
  have hkeptlen := keptEscape_length c.pending
  have hwhole : oscScan (c.extend q).oscTail ((c.extend q).pending.drop start) =
      (oscScan tail (keptEscape c.pending ++ q)).map fun (i, n) =>
        (i + (c.pending.length - start - (keptEscape c.pending).length), n) := by
    change oscScan c.oscTail ((c.pending ++ q).drop start) = _
    rw [List.drop_append_of_le_length (by omega), oscScan_append, hscan, hkept, List.length_drop]
  have hthrownScan : oscScan (thrown.extend q).oscTail ((thrown.extend q).pending.drop 0) =
      oscScan tail (keptEscape c.pending ++ q) := by
    subst hthrown; rfl
  cases hrest : oscScan tail (keptEscape c.pending ++ q) with
  | ok found =>
    left
    obtain ⟨index, length⟩ := found
    have hpos := (oscScan_ok [] hrest).2.2
    rw [hrest] at hwhole hthrownScan
    -- the position of the end in the whole command
    have hsum : start + (index + (c.pending.length - start - (keptEscape c.pending).length)) +
        length = c.pending.length - (keptEscape c.pending).length + (index + length) := by
      have := keptEscape_le_one c.pending
      omega
    have hover : start + (index + (c.pending.length - start - (keptEscape c.pending).length)) +
        length > oscBound := by
      have := keptEscape_le_one c.pending
      omega
    have hafter : (c.pending ++ q).drop
        (c.pending.length - (keptEscape c.pending).length + (index + length)) =
        (keptEscape c.pending ++ q).drop (index + length) := by
      rw [← List.drop_drop, List.drop_append_of_le_length (by omega), drop_keptEscape]
    refine ⟨_, 0 + index + length, _, oscTurn_ignored hwhole (.inr hover), ?_⟩
    rw [oscTurn_ignored hthrownScan (.inl (by subst hthrown; rfl)), hsum]
    subst hthrown
    simp only [extend, drop, hafter, Nat.zero_add]
  | error tail' =>
    right
    rw [hrest] at hwhole hthrownScan
    have hlong' : (c.extend q).pending.length > oscBound := by
      simp only [extend, List.length_append]; omega
    refine ⟨⟨_, _, (oscTurn_unended hwhole).trans (if_pos hlong')⟩, ?_⟩
    rw [oscTurn_unended hthrownScan]
    split
    · exact ⟨_, _, rfl, rfl⟩
    · exact ⟨_, _, rfl, rfl⟩

/-! ### Units -/

inductive UnitCut (turn : HostInputCodec → Turn) (c : HostInputCodec) (q : List UInt8) : Prop where
  | same {out : List HostInputEvent} {c' : HostInputCodec} (h : turn c = .go out c')
      (h' : turn (c.extend q) = .go out (c'.extend q))
  | waits (h : turn c = .stop [] c)
  | discards (n n' : Nat) (hrest : q.findIdx? isFinal = none)
      (h : turn c = .stop [.terminalReply .ignored n] { c with pending := [], discardingCsi := true })
      (h' : turn (c.extend q) = .stop [.terminalReply .ignored n']
        { c with pending := [], discardingCsi := true })

theorem UnitCut.of_eq {turn turn' : HostInputCodec → Turn} {q : List UInt8}
    (h : turn c = turn' c) (h' : turn (c.extend q) = turn' (c.extend q))
    (hcut : UnitCut turn' c q) : UnitCut turn c q := by
  cases hcut with
  | same h₁ h₂ => exact .same (h.trans h₁) (h'.trans h₂)
  | waits h₁ => exact .waits (h.trans h₁)
  | discards n n' hrest h₁ h₂ => exact .discards n n' hrest (h.trans h₁) (h'.trans h₂)

theorem knownHostPrefix_extend {q : List UInt8} (h : knownHostPrefix c.pending = false) :
    knownHostPrefix (c.extend q).pending = false := by
  rw [← Bool.not_eq_true] at h ⊢
  refine fun hq => h ?_
  simp only [knownHostPrefix, Bool.or_eq_true, List.isPrefixOf_iff_prefix, extend] at hq ⊢
  have hp := List.prefix_append c.pending q
  rcases hq with ((hq | hq) | hq) | hq
  · exact .inl (.inl (.inl (hp.trans hq)))
  · exact .inl (.inl (.inr (hp.trans hq)))
  · exact .inl (.inr (hp.trans hq))
  · exact .inr (hp.trans hq)

def altLength (second : UInt8) : Nat := if second = 0x4f then 3 else tailLength second + 2

theorem plainTurn_cons {first : UInt8} {rest : List UInt8} (hp : c.pending = first :: rest)
    (hknown : knownHostPrefix c.pending = false) :
    c.plainTurn =
      if first = 0x1b ∧ rest.head? ≠ some 0x5b then
        if c.pending.length < altLength (rest.head?.getD 0) then .stop [] c
        else .go [.opaqueBytes (c.pending.take (altLength (rest.head?.getD 0)))]
          (c.drop (altLength (rest.head?.getD 0)))
      else .go [hostByte first] { c with pending := rest, utf8Tail := tailLength first } := by
  unfold plainTurn
  split
  · rename_i hnil; rw [hnil] at hp; cases hp
  · rename_i first' rest' hcons
    rw [hp] at hcons
    cases hcons
    rw [if_neg (by simp [hknown])]
    rfl

theorem plainTurn_cut (q : List UInt8) : UnitCut plainTurn c q := by
  cases hp : c.pending with
  | nil => exact .waits (by simp [plainTurn, hp])
  | cons first rest =>
    by_cases hknown : knownHostPrefix c.pending = true
    · exact .waits (by simp only [plainTurn, hp]; rw [← hp, if_pos hknown])
    · have hknown' := Bool.eq_false_of_not_eq_true hknown
      have hturn := plainTurn_cons hp hknown'
      have hturn' := plainTurn_cons (c := c.extend q) (show _ = first :: (rest ++ q) from
        by simp [extend, hp]) (knownHostPrefix_extend hknown')
      have hhead : first = 0x1b → (rest ++ q).head? = rest.head? := by
        rintro rfl
        cases rest with
        | nil => rw [hp] at hknown'; exact absurd hknown' (by decide)
        | cons second rest => rfl
      by_cases hesc : first = 0x1b ∧ rest.head? ≠ some 0x5b
      · have hesc' : first = 0x1b ∧ (rest ++ q).head? ≠ some 0x5b := by
          rw [hhead hesc.1]; exact hesc
        rw [if_pos hesc] at hturn
        rw [if_pos hesc', hhead hesc.1] at hturn'
        by_cases hlen : c.pending.length < altLength (rest.head?.getD 0)
        · exact .waits (hturn.trans (if_pos hlen))
        · rw [if_neg hlen] at hturn
          rw [if_neg (by simp only [extend, List.length_append]; omega),
            drop_extend q (by omega)] at hturn'
          refine .same hturn (hturn'.trans ?_)
          rw [pending_extend,
            List.take_append_of_le_length (by omega)]
      · have hesc' : ¬ (first = 0x1b ∧ (rest ++ q).head? ≠ some 0x5b) := fun h =>
          hesc (by rw [hhead h.1] at h; exact h)
        rw [if_neg hesc] at hturn
        rw [if_neg hesc'] at hturn'
        exact .same hturn hturn'

theorem append_of_start {β : Type} {f : List UInt8 → β} (hp : p ≠ []) (hesc : p ≠ [0x1b])
    (hone : ∀ byte rest, byte ≠ 0x1b → f (byte :: rest) = f [byte])
    (htwo : ∀ first second rest rest', f (first :: second :: rest) = f (first :: second :: rest')) :
    f (p ++ q) = f p := by
  match p with
  | [] => exact absurd rfl hp
  | [byte] => exact hone byte q fun h => hesc (by rw [h])
  | first :: second :: rest => exact htwo first second _ _

theorem introducer_append (hp : p ≠ []) (hesc : p ≠ [0x1b]) :
    introducer (p ++ q) = introducer p :=
  append_of_start hp hesc (fun byte rest h => by unfold introducer; split <;> simp_all)
    fun first second rest rest' => by unfold introducer; split <;> simp_all

theorem introducer_some (h : introducer p = some start) :
    introducer (p ++ q) = some start ∧ start ≤ p.length := by
  refine ⟨(introducer_append ?_ ?_).trans h, ?_⟩
  · rintro rfl; cases h
  · rintro rfl; cases h
  · unfold introducer at h
    split at h <;> cases h <;> simp

theorem oscIntroducer_append (hp : p ≠ []) (hesc : p ≠ [0x1b]) :
    oscIntroducer (p ++ q) = oscIntroducer p :=
  append_of_start hp hesc (fun byte rest h => by unfold oscIntroducer; split <;> simp_all)
    fun first second rest rest' => by unfold oscIntroducer; split <;> simp_all

theorem csiBody_append (hp : 2 ≤ p.length) :
    csiBody (p ++ q) = (csiBody p).map (· ++ q) := by
  match p, hp with
  | first :: second :: rest, _ =>
    simp only [List.cons_append]
    unfold csiBody
    split <;> simp_all

theorem csiBody_length {body : List UInt8} (h : csiBody p = some body) :
    p.length ≤ body.length + 2 := by
  unfold csiBody at h
  split at h <;> cases h <;> simp

theorem isColorCsi_append (hp : 8 ≤ p.length) : isColorCsi (p ++ q) = isColorCsi p := by
  unfold isColorCsi
  rw [csiBody_append (by omega)]
  cases hbody : csiBody p with
  | none => rfl
  | some body =>
    have hlen := csiBody_length hbody
    have hlong : ∀ text : List UInt8, text.length ≤ 6 → ¬ (body <+: text ∧ body ≠ text) := by
      rintro text htext ⟨hpre, hne⟩
      exact hne (hpre.eq_of_length_le (by omega))
    simp only [Option.map_some, Option.any_some]
    rw [isPrefixOf_append _ _ _ (hlong _ (by decide)), isPrefixOf_append _ _ _ (hlong _ (by decide))]

theorem sequenceTurn_cut (hstart : start ≤ c.pending.length)
    (hshort : (((c.extend q).pending.drop start).findIdx? isFinal).all (start + · < hostSequenceBound) = true) :
    UnitCut (·.sequenceTurn start) c q := by
  have hdrop : (c.extend q).pending.drop start = c.pending.drop start ++ q :=
    List.drop_append_of_le_length hstart
  cases hfound : (c.pending.drop start).findIdx? isFinal with
  | some index =>
    have hlt := findIdx?_lt hfound
    rw [List.length_drop] at hlt
    refine .same (by simp only [sequenceTurn, hfound]; rfl) ?_
    simp only [sequenceTurn, hdrop, findIdx?_append_left q hfound]
    rw [drop_extend q (by omega), pending_extend,
      List.take_append_of_le_length (by omega)]
  | none =>
    by_cases hlen : c.pending.length < hostSequenceBound
    · exact .waits (by simp only [sequenceTurn, hfound, hlen, ↓reduceIte])
    · have hrest : q.findIdx? isFinal = none := by
        refine findIdx?_beyond hfound ?_ (hdrop ▸ hshort)
        rw [List.length_drop]
        omega
      have hfound' : ((c.extend q).pending.drop start).findIdx? isFinal = none := by
        rw [hdrop, findIdx?_append_right q hfound, hrest]; rfl
      have hlen' : ¬ (c.extend q).pending.length < hostSequenceBound := by
        simp only [extend, List.length_append]; omega
      have hcolor : isColorCsi (c.extend q).pending = isColorCsi c.pending :=
        isColorCsi_append (by have : hostSequenceBound = 64 := rfl; omega)
      by_cases hpair : isColorCsi c.pending = true
      · refine .discards c.pending.length (c.extend q).pending.length hrest ?_ ?_
        · simp only [sequenceTurn, hfound, hlen, hpair, ↓reduceIte]
        · simp only [sequenceTurn, hfound', hlen', hcolor, hpair, ↓reduceIte]
          rfl
      · exact (plainTurn_cut q).of_eq
          (by simp only [sequenceTurn, hfound, hlen, hpair, ↓reduceIte]; rfl)
          (by simp only [sequenceTurn, hfound', hlen', hcolor, hpair, ↓reduceIte]; rfl)

theorem framedTurn_cut (hp : c.pending ≠ []) (hesc : c.pending ≠ [0x1b])
    (hshort : sequencesShort (c.extend q).pending = true) : UnitCut framedTurn c q := by
  have hintro : introducer (c.extend q).pending = introducer c.pending :=
    introducer_append hp hesc
  cases hstart : introducer c.pending with
  | none =>
    exact (plainTurn_cut q).of_eq (by simp only [framedTurn, hstart])
      (by simp only [framedTurn, hintro, hstart])
  | some start =>
    refine (sequenceTurn_cut (introducer_some (q := []) hstart).2 ?_).of_eq
      (by simp only [framedTurn, hstart]) (by simp only [framedTurn, hintro, hstart])
    simp only [sequencesShort, hintro, hstart, Bool.and_eq_true, Option.all_some] at hshort
    exact hshort.2

theorem mouseTurn_cut (hmouse : mouseStart.isPrefixOf c.pending = true)
    (hshort : sequencesShort (c.extend q).pending = true) : UnitCut mouseTurn c q := by
  cases hfound : c.pending.findIdx? isMouseFinal with
  | some index =>
    have hlt := findIdx?_lt hfound
    refine .same (by simp only [mouseTurn, hfound]; rfl) ?_
    simp only [mouseTurn, extend, findIdx?_append_left q hfound]
    rw [List.take_append_of_le_length (by omega)]
    exact congrArg _ (drop_extend q (by omega))
  | none =>
    by_cases hlen : c.pending.length < hostSequenceBound
    · exact .waits (by simp only [mouseTurn, hfound, hlen, ↓reduceIte])
    · have hfound' : (c.extend q).pending.findIdx? isMouseFinal = none := by
        have hall := hshort
        simp only [sequencesShort, extend, isPrefixOf_left q hmouse, Bool.and_eq_true,
          Bool.not_true, Bool.false_or] at hall
        rw [pending_extend, findIdx?_append_right q hfound,
          @findIdx?_beyond _ _ _ 0 hostSequenceBound _ hfound (by omega) (by simpa using hall.1)]
        rfl
      have hlen' : ¬ (c.extend q).pending.length < hostSequenceBound := by
        simp only [extend, List.length_append]; omega
      have hbound : hostSequenceBound = 64 := rfl
      refine (framedTurn_cut ?_ ?_ hshort).of_eq (by simp only [mouseTurn, hfound, hlen, ↓reduceIte])
        (by simp only [mouseTurn, hfound', hlen', ↓reduceIte])
      · intro h; rw [h] at hlen; simp [hbound] at hlen
      · intro h; rw [h] at hlen; simp [hbound] at hlen

/-- The fixed sequences of the terminal, and how they begin. -/
def hostSequences : List (List UInt8) := [pageUpBytes, pageDownBytes, pasteStart, mouseStart]

def hostBeginnings : List (List UInt8) :=
  [[0x1b], [0x1b, 0x5b], [0x1b, 0x5b, 0x35], [0x1b, 0x5b, 0x36], [0x1b, 0x5b, 0x32],
    [0x1b, 0x5b, 0x32, 0x30], [0x1b, 0x5b, 0x32, 0x30, 0x30]]

theorem mem_hostBeginnings {text : List UInt8} (htext : text ∈ hostSequences) (hp : p ≠ [])
    (hpre : p <+: text) (hne : p ≠ text) : p ∈ hostBeginnings := by
  have hall : ∀ text ∈ hostSequences, ∀ p ∈ text.inits, p = [] ∨ p = text ∨ p ∈ hostBeginnings := by
    decide
  rcases hall text htext p ((List.mem_inits p text).2 hpre) with h | h | h
  · exact absurd h hp
  · exact absurd h hne
  · exact h

theorem unitTurn_waits (hosc : c.discardingOsc = false) (hp : c.pending ∈ hostBeginnings) :
    c.unitTurn v = .stop [] c := by
  obtain ⟨pending, inPaste, discardingOsc, oscUtf8Tail, discardingCsi, utf8Tail⟩ := c
  subst hosc
  simp only [hostBeginnings, List.mem_cons, List.not_mem_nil, or_false] at hp
  rcases hp with rfl | rfl | rfl | rfl | rfl | rfl | rfl <;> rfl

theorem sequencesShort_beginning (hp : p ∈ hostBeginnings) : sequencesShort p = true := by
  have hall : ∀ p ∈ hostBeginnings, sequencesShort p = true := by decide
  exact hall p hp

theorem isPrefixOf_sequence {text : List UInt8} (htext : text ∈ hostSequences) (hp : p ≠ [])
    (hnot : p ∉ hostBeginnings) : text.isPrefixOf (p ++ q) = text.isPrefixOf p :=
  isPrefixOf_append text p q fun h => hnot (mem_hostBeginnings htext hp h.1 h.2)

theorem unitTurn_cut (hosc : c.discardingOsc = false) (hp : c.pending ≠ [])
    (hnone : oscIntroducer c.pending = none)
    (hshort : sequencesShort (c.extend q).pending = true) : UnitCut (·.unitTurn v) c q := by
  by_cases hbegin : c.pending ∈ hostBeginnings
  · exact .waits (unitTurn_waits hosc hbegin)
  have hesc : c.pending ≠ [0x1b] := by
    intro h; rw [h] at hbegin; exact hbegin (by decide)
  have hnone' : oscIntroducer (c.extend q).pending = none :=
    (oscIntroducer_append hp hesc).trans hnone
  have hosc' : (c.extend q).discardingOsc = false := hosc
  have hsame : ∀ text ∈ hostSequences,
      text.isPrefixOf (c.extend q).pending = text.isPrefixOf c.pending :=
    fun text htext => isPrefixOf_sequence htext hp hbegin
  have hup := hsame pageUpBytes (by decide)
  have hdown := hsame pageDownBytes (by decide)
  have hmouse := hsame mouseStart (by decide)
  have htaken : ∀ text : List UInt8, text.isPrefixOf c.pending = true →
      (c.extend q).drop text.length = (c.drop text.length).extend q := fun text h =>
    drop_extend q (List.isPrefixOf_iff_prefix.1 h).length_le
  by_cases hpageUp : pageUpBytes.isPrefixOf c.pending = true
  · refine .same (by simp only [unitTurn, hosc, hnone, hpageUp, ↓reduceIte]; rfl) ?_
    simp only [unitTurn, hosc', hnone', hup, hpageUp, htaken _ hpageUp, ↓reduceIte]
    rfl
  by_cases hpageDown : pageDownBytes.isPrefixOf c.pending = true
  · refine .same (by simp only [unitTurn, hosc, hnone, hpageUp, hpageDown, ↓reduceIte]; rfl) ?_
    simp only [unitTurn, hosc', hnone', hup, hdown, hpageUp, hpageDown, htaken _ hpageDown,
      ↓reduceIte]
    rfl
  by_cases hpointer : mouseStart.isPrefixOf c.pending = true
  · exact (mouseTurn_cut hpointer hshort).of_eq
      (by simp only [unitTurn, hosc, hnone, hpageUp, hpageDown, hpointer, ↓reduceIte]; rfl)
      (by
        simp only [unitTurn, hosc', hnone', hup, hdown, hmouse, hpageUp, hpageDown, hpointer,
          ↓reduceIte]
        rfl)
  · exact (framedTurn_cut hp hesc hshort).of_eq
      (by simp only [unitTurn, hosc, hnone, hpageUp, hpageDown, hpointer]; rfl)
      (by
        simp only [unitTurn, hosc', hnone', hup, hdown, hmouse, hpageUp, hpageDown, hpointer]
        rfl)

/-! ### Tame input -/

theorem sequencesShort_left (h : sequencesShort (p ++ q) = true) : sequencesShort p = true := by
  simp only [sequencesShort, Bool.and_eq_true, Bool.or_eq_true, Bool.not_eq_true'] at h ⊢
  refine ⟨?_, ?_⟩
  · by_cases hmouse : mouseStart.isPrefixOf p = true
    · right
      rcases h.1 with hnot | hall
      · rw [isPrefixOf_left q hmouse] at hnot; cases hnot
      · cases hfound : p.findIdx? isMouseFinal with
        | none => rfl
        | some index => rwa [findIdx?_append_left q hfound] at hall
    · exact .inl (Bool.eq_false_of_not_eq_true hmouse)
  · cases hintro : introducer p with
    | none => rfl
    | some start =>
      obtain ⟨hintro', hstart⟩ := introducer_some (q := q) hintro
      have hall := h.2
      rw [hintro', Option.all_some, List.drop_append_of_le_length hstart] at hall
      rw [Option.all_some]
      cases hfound : (p.drop start).findIdx? isFinal with
      | none => rfl
      | some index => rwa [findIdx?_append_left q hfound] at hall

theorem head?_append (q : List UInt8) (hp : p ≠ []) : (p ++ q).head? = p.head? := by
  cases p with
  | nil => exact absurd rfl hp
  | cons byte p => rfl

theorem tameState_of_extend (h : (c.extend q).tameState = true) : c.tameState = true := by
  unfold tameState at h ⊢
  by_cases hpaste : c.inPaste = true
  · have hpaste' : (c.extend q).inPaste = true := hpaste
    rw [if_pos hpaste', pending_extend] at h
    rw [if_pos hpaste]
    cases hfound : findBytes pasteEnd c.pending with
    | some index =>
      rw [(findBytes_append q hfound).1] at h
      exact h
    | none =>
      simp only [decide_eq_true_eq]
      split at h
      · rename_i index hindex
        have hlt := findBytes_none hfound hindex
        rw [decide_eq_true_eq] at h
        omega
      · rw [decide_eq_true_eq, List.length_append] at h
        omega
  have hpaste' : ¬ (c.extend q).inPaste = true := hpaste
  rw [if_neg hpaste'] at h
  rw [if_neg hpaste]
  by_cases hdiscard : (c.discardingOsc || c.discardingCsi) = true
  · rw [if_pos hdiscard]
  have hdiscard' : ¬ ((c.extend q).discardingOsc || (c.extend q).discardingCsi) = true := hdiscard
  rw [if_neg hdiscard', pending_extend] at h
  rw [if_neg hdiscard]
  by_cases hempty : c.pending = []
  · rw [hempty]
    have hnot : pasteStart.isPrefixOf [] = false := by decide
    have hshort : sequencesShort [] = true := by decide
    simp [hnot, hshort]
  by_cases hbegin : c.pending ∈ hostBeginnings
  · -- a cut within a fixed sequence
    have hnot : pasteStart.isPrefixOf c.pending = false := by
      have hall : ∀ p ∈ hostBeginnings, pasteStart.isPrefixOf p = false := by decide
      exact hall _ hbegin
    rw [if_neg (by simp [hnot]), sequencesShort_beginning hbegin]
    split <;> rfl
  · rw [isPrefixOf_sequence (by decide) hempty hbegin, head?_append q hempty,
      show (c.extend q).utf8Tail = c.utf8Tail from rfl] at h
    split at h
    · rename_i hstart
      rw [if_pos hstart]
      exact h
    · rename_i hstart
      rw [if_neg hstart]
      split at h
      · rename_i htail
        rw [if_pos htail]
      · rename_i htail
        rw [if_neg htail]
        exact sequencesShort_left h

/-! ### Passes -/

def unitStart (c : HostInputCodec) : HostInputCodec := { c with utf8Tail := 0 }

theorem next_empty (hp : c.pending = []) : next v c = .stop [] c := by
  rw [next, if_pos (by simpa using hp)]

theorem run_idle (htame : c.tameState = true) (hp : c.pending = []) : Run v c [] c := by
  have hrun : Run v c (([] : List HostInputEvent).flatMap HostInputEvent.units) c :=
    .stop htame (next_empty hp)
  exact hrun

theorem next_nonempty (hp : c.pending ≠ []) : next v c = c.turn v := by
  rw [next, if_neg (by simpa using hp)]

theorem extend_ne_nil (hp : c.pending ≠ []) : (c.extend q).pending ≠ [] := by
  simp [extend, hp]

/-- A pass that is neither in a paste nor in a discarded reply nor within a character. -/
structure AtUnit (c : HostInputCodec) : Prop where
  pending : c.pending ≠ []
  inPaste : c.inPaste = false
  discardingCsi : c.discardingCsi = false
  interrupted : ¬ (c.utf8Tail ≠ 0 ∧ c.pending.head?.any isTail = true)

theorem AtUnit.extend (h : AtUnit c) (q : List UInt8) : AtUnit (c.extend q) where
  pending := extend_ne_nil h.pending
  inPaste := h.inPaste
  discardingCsi := h.discardingCsi
  interrupted := by
    have := h.interrupted
    rwa [← head?_append q h.pending] at this

theorem AtUnit.next (h : AtUnit c)
    (hstart : c.discardingOsc = false → pasteStart.isPrefixOf c.pending = false) :
    next v c = c.unitStart.unitTurn v := by
  have hpaste : ¬ (!c.discardingOsc && !c.discardingCsi && pasteStart.isPrefixOf c.pending) = true := by
    cases hosc : c.discardingOsc with
    | true => simp
    | false => simp [hstart hosc]
  rw [next_nonempty h.pending, turn, if_neg (by simp [h.inPaste]), if_neg hpaste,
    if_neg (by simp [h.discardingCsi]), if_neg h.interrupted]
  rfl

theorem AtUnit.next_osc (h : AtUnit c) (hosc : c.discardingOsc = true) :
    HostInputCodec.next v c = c.unitStart.unitTurn v :=
  h.next fun hnot => by rw [hosc] at hnot; cases hnot

theorem AtUnit.tame_iff (h : AtUnit c) (hosc : c.discardingOsc = false) :
    c.tameState = true ↔
      if pasteStart.isPrefixOf c.pending = true then c.utf8Tail = 0
      else sequencesShort c.pending = true := by
  have htail : ¬ (c.utf8Tail ≠ 0 && c.pending.head?.any isTail) = true := by
    simpa using h.interrupted
  simp only [tameState, h.inPaste, hosc, h.discardingCsi, Bool.or_self, Bool.false_eq_true,
    ↓reduceIte, htail]
  split
  · rw [decide_eq_true_iff]
  · rfl

theorem tameState_discarding (hpaste : c.inPaste = false)
    (h : (c.discardingOsc || c.discardingCsi) = true) : c.tameState = true := by
  rw [tameState, if_neg (by simp [hpaste]), if_pos h]

theorem AtUnit.unitStart (h : AtUnit c) (htame : c.tameState = true) :
    HostInputCodec.next v c.unitStart = HostInputCodec.next v c ∧ c.unitStart.tameState = true := by
  have hstart : AtUnit c.unitStart := ⟨h.pending, h.inPaste, h.discardingCsi, by
    rintro ⟨hne, -⟩; exact hne rfl⟩
  cases hosc : c.discardingOsc with
  | true =>
    refine ⟨(hstart.next_osc hosc).trans (h.next_osc hosc).symm, ?_⟩
    refine tameState_discarding h.inPaste ?_
    rw [Bool.or_eq_true]
    exact .inl hosc
  | false =>
    have hiff := (h.tame_iff hosc).1 htame
    by_cases hpaste : pasteStart.isPrefixOf c.pending = true
    · rw [if_pos hpaste] at hiff
      have heq : c.unitStart = c := by
        cases c; cases hiff; rfl
      rw [heq]
      exact ⟨rfl, htame⟩
    · have hnot := Bool.eq_false_of_not_eq_true hpaste
      refine ⟨(hstart.next fun _ => hnot).trans (h.next fun _ => hnot).symm, ?_⟩
      have hpaste' : ¬ pasteStart.isPrefixOf c.unitStart.pending = true := hpaste
      rw [hstart.tame_iff hosc, if_neg hpaste']
      rwa [if_neg hpaste] at hiff

theorem AtUnit.waits (h : AtUnit c) (htame : (c.extend q).tameState = true)
    (hstop : HostInputCodec.next v c = .stop [] c.unitStart) : Cut v c q :=
  have hq := (h.extend q).unitStart htame
  Cuts.waits (tameState_of_extend htame) hstop hq.1 hq.2

theorem AtUnit.oscCut (h : AtUnit c) (htame : (c.extend q).tameState = true) (hstart : start ≤ 2)
    (hlen : start ≤ c.pending.length)
    (hnext : HostInputCodec.next v c = c.unitStart.oscTurn v start)
    (hnext' : HostInputCodec.next v (c.extend q) = (c.unitStart.extend q).oscTurn v start) :
    Cut v c q := by
  have hc := tameState_of_extend htame
  rcases oscTurn_cut (v := v) (c := c.unitStart) q hlen with
    ⟨out, c', hgo, hgo'⟩ | hstop | ⟨tail, count, hscan, hlong, hstop⟩
  · exact .inl ⟨out, c', hnext.trans hgo, hnext'.trans hgo'⟩
  · exact h.waits htame (hnext.trans hstop)
  · -- the command is thrown away, with the state in which its end is looked for
    refine .inr ⟨_, _, .stop hc (hnext.trans hstop), ?_⟩
    intro ws t hrun
    set thrown : HostInputCodec := { c.unitStart with
      pending := keptEscape c.unitStart.pending, discardingOsc := true, oscUtf8Tail := tail }
      with hthrown
    have htameThrown : (thrown.extend q).tameState = true :=
      tameState_discarding h.inPaste rfl
    have hthrownNext : (thrown.extend q).pending ≠ [] →
        HostInputCodec.next v (thrown.extend q) = (thrown.extend q).oscTurn v 0 := by
      intro hne
      have hat : AtUnit (thrown.extend q) :=
        ⟨hne, h.inPaste, h.discardingCsi, fun hint => hint.1 rfl⟩
      rw [hat.next (fun hosc => by cases hosc)]
      rfl
    rcases oscTurn_resume (v := v) q hstart hscan hlong hthrown with
      ⟨n, n', after, hwhole, hrest⟩ | ⟨⟨n, after, hwhole⟩, out, after', hrest, hout⟩
    · have hne : (thrown.extend q).pending ≠ [] := by
        intro hempty
        have herror : oscScan (thrown.extend q).oscTail ((thrown.extend q).pending.drop 0) =
            .error (thrown.extend q).oscTail := by rw [hempty]; rfl
        rw [oscTurn_unended herror] at hrest
        split at hrest <;> cases hrest
      cases hrun with
      | stop _ hpass => rw [hnext', hwhole] at hpass; cases hpass
      | go _ hpass hgoing =>
        rw [hnext', hwhole] at hpass
        cases hpass
        exact ⟨_, _, .go htameThrown ((hthrownNext hne).trans hrest) hgoing, rfl⟩
    · cases hrun with
      | go _ hpass _ => rw [hnext', hwhole] at hpass; cases hpass
      | stop _ hpass =>
        rw [hnext', hwhole] at hpass
        cases hpass
        by_cases hempty : (thrown.extend q).pending = []
        · exact ⟨[], _, run_idle htameThrown hempty, rfl⟩
        · refine ⟨_, _, .stop htameThrown ((hthrownNext hempty).trans hrest), ?_⟩
          rw [hout]
          rfl

theorem next_discard (hp : c.pending ≠ []) (hpaste : c.inPaste = false)
    (hcsi : c.discardingCsi = true) : next v c = c.discardTurn := by
  rw [next_nonempty hp, turn, if_neg (by simp [hpaste]), if_neg (by simp [hcsi]), if_pos hcsi]

theorem discardTurn_none (h : c.pending.findIdx? isFinal = none) :
    c.discardTurn =
      .go [.terminalReply .ignored c.pending.length] { c with pending := [] } := by
  rw [discardTurn, h]

theorem discardTurn_some {index : Nat} (h : c.pending.findIdx? isFinal = some index) :
    c.discardTurn = .go [.terminalReply .ignored (index + 1)]
      { c.drop (index + 1) with discardingCsi := false } := by
  rw [discardTurn, h]

theorem run_discarding (hpaste : c.inPaste = false) (hcsi : c.discardingCsi = true)
    (hnone : c.pending.findIdx? isFinal = none) : Run v c [] { c with pending := [] } := by
  have htame : ∀ d : HostInputCodec, d.inPaste = false → d.discardingCsi = true →
      d.tameState = true := fun d hd hd' => tameState_discarding hd (by simp [hd'])
  have hidle : Run v { c with pending := [] } [] { c with pending := [] } :=
    run_idle (htame _ hpaste hcsi) rfl
  by_cases hp : c.pending = []
  · rw [show c = { c with pending := [] } by rw [← hp]]
    exact hidle
  · have hrun : Run v c (_ ++ []) _ := .go (htame c hpaste hcsi)
      ((next_discard hp hpaste hcsi).trans (discardTurn_none hnone)) hidle
    exact hrun

theorem discard_cut (hp : c.pending ≠ []) (hpaste : c.inPaste = false)
    (hcsi : c.discardingCsi = true) : Cut v c q := by
  have hnext := next_discard (v := v) hp hpaste hcsi
  have hnext' := next_discard (v := v) (c := c.extend q) (extend_ne_nil hp) hpaste hcsi
  cases hfound : c.pending.findIdx? isFinal with
  | some index =>
    refine .inl ⟨_, _, hnext.trans (discardTurn_some hfound), hnext'.trans ?_⟩
    rw [discardTurn_some (findIdx?_append_left q hfound),
      drop_extend q (by have := findIdx?_lt hfound; omega)]
    rfl
  | none =>
    refine .inr ⟨[], _, run_discarding hpaste hcsi hfound, ?_⟩
    intro ws t hrun
    set drained : HostInputCodec := { c with pending := [] }
    by_cases hq : q = []
    · -- nothing follows
      subst hq
      rw [extend_nil] at hrun hnext'
      cases hrun with
      | stop _ hpass => rw [hnext', discardTurn_none hfound] at hpass; cases hpass
      | go _ hpass hrest =>
        rw [hnext', discardTurn_none hfound] at hpass
        cases hpass
        exact ⟨_, _, by rw [extend_nil]; exact hrest, rfl⟩
    have hdrained := next_discard (v := v) (c := drained.extend q) hq hpaste hcsi
    have hafter : ∃ n n' after, (c.extend q).discardTurn = .go [.terminalReply .ignored n] after ∧
        (drained.extend q).discardTurn = .go [.terminalReply .ignored n'] after := by
      cases hend : q.findIdx? isFinal with
      | none =>
        have hwhole : (c.extend q).pending.findIdx? isFinal = none := by
          rw [pending_extend,
            findIdx?_append_right q hfound, hend]
          rfl
        exact ⟨_, _, _, discardTurn_none hwhole, discardTurn_none hend⟩
      | some index =>
        have hwhole : (c.extend q).pending.findIdx? isFinal = some (index + c.pending.length) := by
          rw [pending_extend,
            findIdx?_append_right q hfound, hend]
          rfl
        refine ⟨_, index + 1, _, discardTurn_some hwhole, (discardTurn_some hend).trans ?_⟩
        have hdrop : (c.pending ++ q).drop (index + c.pending.length + 1) = q.drop (index + 1) := by
          rw [show index + c.pending.length + 1 = c.pending.length + (index + 1) by omega,
            List.drop_append, List.drop_eq_nil_of_le (by omega), Nat.add_sub_cancel_left,
            List.nil_append]
        simp only [drop, extend, hdrop]
        rfl
    obtain ⟨n, n', after, hwhole, hrest⟩ := hafter
    cases hrun with
    | stop _ hpass => rw [hnext', hwhole] at hpass; cases hpass
    | go _ hpass hgoing =>
      rw [hnext', hwhole] at hpass
      cases hpass
      have htame : (drained.extend q).tameState = true :=
        tameState_discarding hpaste (by rw [Bool.or_eq_true]; exact .inr hcsi)
      exact ⟨_, _, .go htame (hdrained.trans hrest) hgoing, rfl⟩

theorem AtUnit.cut (h : AtUnit c) (htame : (c.extend q).tameState = true) : Cut v c q := by
  have hc := tameState_of_extend htame
  cases hosc : c.discardingOsc with
  | true =>
    have hturn : ∀ d : HostInputCodec, d.discardingOsc = true → d.unitTurn v = d.oscTurn v 0 := by
      intro d hd; rw [unitTurn, if_pos hd]
    refine h.oscCut htame (Nat.zero_le _) (Nat.zero_le _) ?_ ?_
    · exact (h.next_osc hosc).trans (hturn _ hosc)
    · exact ((h.extend q).next_osc hosc).trans (hturn _ hosc)
  | false =>
    have hosc' : (c.extend q).discardingOsc = false := hosc
    have hiff := ((h.extend q).tame_iff hosc').1 htame
    by_cases hpaste : pasteStart.isPrefixOf c.pending = true
    · have hentered : ∀ d : HostInputCodec, AtUnit d → d.discardingOsc = false →
          pasteStart.isPrefixOf d.pending = true →
          HostInputCodec.next v d = .go [] { d with inPaste := true } := by
        intro d hd hdosc hdpaste
        rw [next_nonempty hd.pending, turn, if_neg (by simp [hd.inPaste]),
          if_pos (by simp [hdosc, hd.discardingCsi, hdpaste])]
      exact .inl ⟨[], _, hentered c h hosc hpaste,
        hentered _ (h.extend q) hosc (isPrefixOf_left q hpaste)⟩
    have hnext := h.next (v := v) fun _ => Bool.eq_false_of_not_eq_true hpaste
    by_cases hbegin : c.pending ∈ hostBeginnings
    · exact h.waits htame (hnext.trans (unitTurn_waits hosc hbegin))
    have hpaste' : ¬ pasteStart.isPrefixOf (c.extend q).pending = true := by
      rw [pending_extend,
        isPrefixOf_sequence (by decide) h.pending hbegin]
      exact hpaste
    have hnext' := (h.extend q).next (v := v) fun _ => Bool.eq_false_of_not_eq_true hpaste'
    rw [if_neg hpaste'] at hiff
    cases hintro : oscIntroducer c.pending with
    | some start =>
      have hintro' : oscIntroducer (c.extend q).pending = some start := by
        refine (oscIntroducer_append h.pending fun hesc => hbegin ?_).trans hintro
        rw [hesc]; decide
      have hstart : start ≤ 2 ∧ start ≤ c.pending.length := by
        unfold oscIntroducer at hintro
        split at hintro
        · rename_i hp; cases hintro; simp [hp]
        · rename_i hp; cases hintro; simp [hp]
        · cases hintro
      have hturn : ∀ d : HostInputCodec, d.discardingOsc = false →
          oscIntroducer d.pending = some start → d.unitTurn v = d.oscTurn v start := by
        intro d hd hdstart
        simp only [unitTurn, hd, hdstart, Bool.false_eq_true, ↓reduceIte]
      exact h.oscCut htame hstart.1 hstart.2 (hnext.trans (hturn _ hosc hintro))
        (hnext'.trans (hturn _ hosc hintro'))
    | none =>
      have hcut : UnitCut (·.unitTurn v) c.unitStart q := unitTurn_cut hosc h.pending hintro hiff
      cases hcut with
      | same hgo hgo' => exact .inl ⟨_, _, hnext.trans hgo, hnext'.trans hgo'⟩
      | waits hstop => exact h.waits htame (hnext.trans hstop)
      | discards n n' hrest hstop hstop' =>
        refine .inr ⟨_, _, .stop hc (hnext.trans hstop), ?_⟩
        intro ws t hrun
        cases hrun with
        | go _ hpass _ => rw [hnext'] at hpass; exact absurd (hstop'.symm.trans hpass) nofun
        | stop _ hpass =>
          cases (hnext'.trans hstop').symm.trans hpass
          exact ⟨[], _, run_discarding h.inPaste rfl hrest, rfl⟩

theorem paste_cut (hp : c.pending ≠ []) (hpaste : c.inPaste = true)
    (htame : (c.extend q).tameState = true) : Cut v c q := by
  have hc := tameState_of_extend htame
  have hnext : next v c = c.pasteTurn := by
    rw [next_nonempty hp, turn, if_pos hpaste]
  have hnext' : next v (c.extend q) = (c.extend q).pasteTurn := by
    rw [next_nonempty (extend_ne_nil hp), turn, if_pos (show (c.extend q).inPaste = true from hpaste)]
  rw [tameState, if_pos hpaste] at hc
  cases hfound : findBytes pasteEnd c.pending with
  | some index =>
    obtain ⟨hfound', hlen⟩ := findBytes_append q hfound
    rw [hfound, decide_eq_true_eq] at hc
    have hfits : ¬ index + pasteEnd.length > resumeInputBound := by omega
    refine .inl ⟨_, _, hnext.trans (by simp only [pasteTurn, hfound, hfits, ↓reduceIte]; rfl), ?_⟩
    rw [hnext']
    simp only [pasteTurn, extend, hfound', hfits, ↓reduceIte]
    rw [List.take_append_of_le_length hlen, drop, List.drop_append_of_le_length hlen]
    rfl
  | none =>
    rw [hfound, decide_eq_true_eq] at hc
    refine Cuts.waits (tameState_of_extend htame) (hnext.trans ?_) rfl htame
    simp only [pasteTurn, hfound, Nat.not_lt.2 hc, ↓reduceIte]

theorem tail_cut (hp : c.pending ≠ []) (hpaste : c.inPaste = false) (hcsi : c.discardingCsi = false)
    (htail : c.utf8Tail ≠ 0 ∧ c.pending.head?.any isTail = true) :
    ∃ out c', next v c = .go out c' ∧ next v (c.extend q) = .go out (c'.extend q) := by
  have hturn : ∀ d : HostInputCodec, d.pending ≠ [] → d.inPaste = false → d.discardingCsi = false →
      d.utf8Tail ≠ 0 ∧ d.pending.head?.any isTail = true →
      next v d = .go (d.pending.head?.map hostByte).toList
        { d.drop 1 with utf8Tail := d.utf8Tail - 1 } := by
    intro d hd hdpaste hdcsi hdtail
    have hstart : pasteStart.isPrefixOf d.pending = false := by
      cases hbytes : d.pending with
      | nil => rfl
      | cons byte rest =>
        rw [hbytes] at hdtail
        have hne : (0x1b == byte) = false := by
          rw [beq_eq_false_iff_ne]
          rintro rfl
          exact absurd hdtail.2 (by simp [escape_not_tail])
        simp [pasteStart, List.isPrefixOf, hne]
    rw [next_nonempty hd, turn, if_neg (by simp [hdpaste]), if_neg (by simp [hstart]),
      if_neg (by simp [hdcsi]), if_pos hdtail]
  have hlen : 1 ≤ c.pending.length := List.length_pos_of_ne_nil hp
  refine ⟨_, _, hturn c hp hpaste hcsi htail, ?_⟩
  have htail' : (c.extend q).utf8Tail ≠ 0 ∧ (c.extend q).pending.head?.any isTail = true := by
    refine ⟨htail.1, ?_⟩
    rw [pending_extend, head?_append q hp]
    exact htail.2
  rw [hturn _ (extend_ne_nil hp) hpaste hcsi htail', drop_extend q hlen,
    pending_extend, head?_append q hp]
  rfl

theorem cuts (htame : (c.extend q).tameState = true) :
    c.tameState = true ∧ Cut v c q := by
  have hc := tameState_of_extend htame
  refine ⟨hc, ?_⟩
  by_cases hp : c.pending = []
  · exact Cuts.waits hc (next_empty hp) rfl htame
  cases hpaste : c.inPaste with
  | true => exact paste_cut hp hpaste htame
  | false =>
    cases hcsi : c.discardingCsi with
    | true => exact discard_cut hp hpaste hcsi
    | false =>
      by_cases htail : c.utf8Tail ≠ 0 ∧ c.pending.head?.any isTail = true
      · exact .inl (tail_cut hp hpaste hcsi htail)
      · exact AtUnit.cut ⟨hp, hpaste, hcsi, htail⟩ htame

end HostInputCodec

end Voytty.Cli
