import Voytty.Terminal.Containment

/-!
# Text tokens

What the filter does with a byte read in the ground state, seen as a decoder.
`groundTokens` says which tokens the byte hands over (a character to the printer,
an undecodable fragment or a control byte to the engine) and which bytes stay
pending; `processByte_ground` says that the machine hands over exactly these, in
order.
-/

namespace Voytty.Terminal

open Voytty.Lib

/-- What the filter hands over for text. -/
inductive TextToken where
  | character (c : Char)
  | fragment (bytes : List UInt8)
  | control (byte : UInt8)
  deriving DecidableEq, Repr

namespace TextToken

def bytes : TextToken → List UInt8
  | character c => String.utf8EncodeChar c
  | fragment bytes => bytes
  | control byte => [byte]

/-- A fragment is not text, and a control byte is one. -/
def Proper : TextToken → Prop
  | character c => Printable c
  | fragment bytes => bytes ≠ [] ∧ decode bytes = none
  | control byte => byte < 0x20 ∨ byte = 0x7f

/-- What the engine may be fed: fragments of high bytes, and no ESC. -/
def Handed : TextToken → Prop
  | character c => Printable c
  | fragment bytes => bytes ≠ [] ∧ decode bytes = none ∧ ∀ b ∈ bytes, 0x80 ≤ b
  | control byte => (byte < 0x20 ∨ byte = 0x7f) ∧ byte ≠ 0x1b

theorem Handed.proper {t : TextToken} (h : t.Handed) : t.Proper := by
  cases t with
  | character c => exact h
  | fragment bytes => exact ⟨h.1, h.2.1⟩
  | control byte => exact h.1

end TextToken

/-! ## The decoder -/

/-- The tokens of `drainUtf8`, and the bytes it leaves pending. -/
def drainTokens : Nat → List UInt8 → List TextToken × List UInt8
  | 0, pending => ([], pending)
  | fuel + 1, pending =>
    match fromUtf8 pending with
    | .ok [] => ([], pending)
    | .ok (character :: _) => ([.character character], [])
    | .error error =>
      if error.errorLen = none ∧ pending.length < 4 then ([], pending)
      else
        let n := min (error.errorLen.getD 1) pending.length
        if (pending.drop n).isEmpty then ([.fragment (pending.take n)], pending.drop n)
        else
          let (tokens, left) := drainTokens fuel (pending.drop n)
          (.fragment (pending.take n) :: tokens, left)

def flushTokens (pending : List UInt8) : List TextToken :=
  if pending.isEmpty then [] else [.fragment pending]

def c1State (pending : List UInt8) (byte : UInt8) : Option PolicyState :=
  if pending.isEmpty then c1Introducer byte else none

def introduces (pending : List UInt8) (byte : UInt8) : Bool :=
  byte == 0x1b || (c1State pending byte).isSome

/-- The tokens one byte hands over in the ground state, and the bytes left pending. -/
def groundTokens (pending : List UInt8) (byte : UInt8) : List TextToken × List UInt8 :=
  if introduces pending byte then (flushTokens pending, [])
  else if byte < 0x20 ∨ byte = 0x7f then (flushTokens pending ++ [.control byte], [])
  else if byte < 0x80 ∧ pending.isEmpty then ([.character (Char.ofNat byte.toNat)], [])
  else drainTokens ((pending ++ [byte]).length + 1) (pending ++ [byte])

def groundBytes (pending : List UInt8) (byte : UInt8) : List UInt8 :=
  if introduces pending byte then [] else [byte]

def groundState (pending : List UInt8) (byte : UInt8) : PolicyState :=
  if byte = 0x1b then .escape (.new [0x1b]) else (c1State pending byte).getD .ground

/-! ### Each byte read is handed over or pending -/

section Text

variable {p : List UInt8} {b : UInt8}

theorem incomplete_high (h : scan p = .incomplete) : ∀ b ∈ p, 0x80 ≤ b := by
  have hs := scan_scans p
  rw [h] at hs
  cases hs with
  | incomplete _ high => exact high

theorem incomplete_length (h : scan p = .incomplete) : p.length < 4 := by
  have hs := scan_scans p
  rw [h] at hs
  cases hs with
  | incomplete _ _ c more pos ext =>
    have hc : (String.utf8EncodeChar c).length ≤ 4 := by
      rw [String.length_utf8EncodeChar]; exact Char.utf8Size_le_four c
    have hpos := List.length_pos_iff.mpr pos
    rw [ext, List.length_append] at hc
    omega

def TextByte (b : UInt8) : Prop := 0x20 ≤ b ∧ b ≠ 0x7f

theorem TextByte.printable (hb : TextByte b) : Printable (Char.ofNat b.toNat) := by
  have hlt := b.toNat_lt
  have hv : b.toNat.isValidChar := Or.inl (by omega)
  have htoNat : (Char.ofNat b.toNat).toNat = b.toNat := by rw [Char.toNat_ofNat, if_pos hv]
  unfold Printable
  rw [htoNat]
  obtain ⟨hge, hne⟩ := hb
  rw [UInt8.le_iff_toNat_le] at hge
  exact ⟨hge, fun h => hne (UInt8.toNat_inj.mp h)⟩

theorem scan_high_printable {rest : List UInt8} {c : Char} {w : Nat} (hb : 0x80 ≤ b)
    (h : scan (b :: rest) = .char c w) : Printable c := by
  have hs := scan_scans (b :: rest)
  rw [h] at hs
  generalize hl : b :: rest = l at hs
  cases hs with
  | char c rest' =>
    by_contra hc
    have hlow : c.toNat < 0x80 := by unfold Printable at hc; omega
    have henc : String.utf8EncodeChar c = [UInt8.ofNat c.toNat] := by
      have : encode [c] = [c].map fun c => UInt8.ofNat c.toNat := encode_ascii (by simpa using hlow)
      simpa [encode] using this
    rw [henc] at hl
    obtain rfl : b = UInt8.ofNat c.toNat := (List.cons.inj hl).1
    rw [UInt8.le_iff_toNat_le, UInt8.toNat_ofNat'] at hb
    have hbig : (0x80 : UInt8).toNat = 128 := rfl
    omega

end Text

/-- Tokens and pending bytes account for `read`, and the pending bytes may still grow. -/
structure Accounts (read : List UInt8) (out : List TextToken × List UInt8) : Prop where
  bytes : out.1.flatMap TextToken.bytes ++ out.2 = read
  pending : scan out.2 = .incomplete
  handed : ∀ t ∈ out.1, t.Handed

theorem Accounts.cons {read : List UInt8} {out : List TextToken × List UInt8} {t : TextToken}
    (ht : t.Handed) (h : Accounts read out) : Accounts (t.bytes ++ read) (t :: out.1, out.2) :=
  ⟨by simp [← h.bytes], h.pending, List.forall_mem_cons.mpr ⟨ht, h.handed⟩⟩

theorem Accounts.single {t : TextToken} (ht : t.Handed) : Accounts t.bytes ([t], []) :=
  ⟨by simp, rfl, by simpa using ht⟩

variable {pending : List UInt8}

theorem Accounts.keep (h : scan pending = .incomplete) :
    Accounts pending ([], pending) := ⟨rfl, h, nofun⟩

theorem TextToken.Handed.ofIncomplete (hne : pending ≠ []) (h : scan pending = .incomplete) :
    (TextToken.fragment pending).Handed :=
  ⟨hne, by rw [decode, fromUtf8_incomplete hne h]; rfl, incomplete_high h⟩

theorem flushTokens_accounts (h : scan pending = .incomplete) :
    Accounts pending (flushTokens pending, []) := by
  unfold flushTokens
  cases pending with
  | nil => exact .keep rfl
  | cons b rest => exact .single (.ofIncomplete (List.cons_ne_nil b rest) h)

/-- A scanned scalar is the encoding at the head, so a scalar as long as the buffer is all of it. -/
theorem scan_whole {bs : List UInt8} {c : Char} (h : scan bs = .char c bs.length) :
    bs = String.utf8EncodeChar c := by
  have hs := scan_scans bs
  rw [h] at hs
  generalize hn : bs.length = n at hs
  cases hs with
  | char c rest =>
    rw [List.length_append] at hn
    have hrest : rest = [] := List.length_eq_zero_iff.mp (by omega)
    rw [hrest, List.append_nil]

theorem drainTokens_one {b : UInt8} (hb : TextByte b) (fuel : Nat) :
    Accounts [b] (drainTokens (fuel + 1) [b]) := by
  unfold drainTokens
  cases hs : scan [b] with
  | char c w =>
    obtain ⟨rfl, rfl⟩ : c = Char.ofNat b.toNat ∧ w = 1 := by
      simp only [scan] at hs
      grind
    rw [fromUtf8_char hs]
    nth_rewrite 1 [scan_whole hs]
    exact Accounts.single (t := .character _) hb.printable
  | incomplete =>
    rw [fromUtf8_incomplete (by simp) hs]
    simp only [List.length_singleton, Nat.one_lt_ofNat, and_self, ↓reduceIte]
    exact .keep hs
  | invalid n =>
    obtain rfl : n = 1 := by
      simp only [scan] at hs
      grind
    rw [fromUtf8_invalid hs]
    have hhigh : ¬b < 0x80 := fun hb => by simp [scan, hb] at hs
    have hhanded : (TextToken.fragment [b]).Handed :=
      ⟨by simp, by rw [decode, fromUtf8_invalid hs]; rfl, by simpa using hhigh⟩
    exact .single hhanded

/-- A byte after a pending prefix completes it, joins it, or starts over behind it. -/
theorem drainTokens_snoc {p : List UInt8} {b : UInt8} (hp : p ≠ []) (h : scan p = .incomplete)
    (hb : TextByte b) (fuel : Nat) : Accounts (p ++ [b]) (drainTokens (fuel + 2) (p ++ [b])) := by
  unfold drainTokens
  rcases scan_snoc b hp h with hs | hs | ⟨c, hs⟩
  · rw [fromUtf8_incomplete (by simp) hs]
    simp only [incomplete_length hs, and_self, ↓reduceIte]
    exact .keep hs
  · rw [fromUtf8_invalid hs]
    have hlen : min p.length (p ++ [b]).length = p.length := by simp
    simp only [Option.getD_some, hlen, reduceCtorEq, false_and, ↓reduceIte, List.take_left,
      List.drop_left, List.isEmpty_cons]
    exact .cons (.ofIncomplete hp h) (drainTokens_one hb fuel)
  · have hs' : scan (p ++ [b]) = .char c (p ++ [b]).length := by simpa using hs
    rw [fromUtf8_char hs']
    nth_rewrite 1 [scan_whole hs']
    obtain ⟨d, p', rfl⟩ := List.exists_cons_of_ne_nil hp
    exact Accounts.single (t := .character c)
      (scan_high_printable (incomplete_high h d List.mem_cons_self) hs)

theorem groundTokens_accounts (h : scan pending = .incomplete) (byte : UInt8) :
    Accounts (pending ++ groundBytes pending byte) (groundTokens pending byte) := by
  unfold groundTokens groundBytes
  split
  · rw [List.append_nil]
    exact flushTokens_accounts h
  rename_i hintro
  split
  · rename_i hcontrol
    have hflush := flushTokens_accounts h
    have hbytes : (flushTokens pending).flatMap TextToken.bytes = pending := by
      simpa using hflush.bytes
    refine ⟨by simp [hbytes, TextToken.bytes], rfl, fun t ht => ?_⟩
    rcases List.mem_append.mp ht with ht | ht
    · exact hflush.handed t ht
    · obtain rfl := List.mem_singleton.mp ht
      refine ⟨hcontrol, ?_⟩
      rintro rfl
      exact hintro rfl
  rename_i hcontrol
  have htext : TextByte byte := by
    unfold TextByte
    grind
  split
  · rename_i hascii
    obtain ⟨hlow, hempty⟩ := hascii
    obtain rfl : pending = [] := by simpa using hempty
    have hbyte : byte.toNat < 0x80 := by simpa [UInt8.lt_iff_toNat_lt] using hlow
    have := Accounts.single (t := .character (Char.ofNat byte.toNat)) htext.printable
    rwa [TextToken.bytes, encode_one hbyte] at this
  · cases pending with
    | nil => exact drainTokens_one htext _
    | cons c p => exact drainTokens_snoc (List.cons_ne_nil c p) h htext _

theorem groundState_text {byte : UInt8} (h : introduces pending byte = false) :
    groundState pending byte = .ground := by
  unfold introduces at h
  obtain ⟨hesc, hc⟩ := Bool.or_eq_false_iff.mp h
  unfold groundState
  have hnone : c1State pending byte = none := by simpa using hc
  rw [if_neg (by simpa using hesc), hnone]
  rfl

/-! ## The machine hands the tokens over -/

namespace Machine

variable {R : Type} (em : Emulator R)

def setPending (m : Machine R) (pending : List UInt8) : Machine R :=
  { m with policy := { m.policy with utf8 := pending } }

/-- One token handed over: printed, fed as it is, or a control byte (a bell is an event). -/
def hand (m : Machine R) : TextToken → Machine R
  | .character c => m.printCharacter em c
  | .fragment bytes =>
    let m := m.feedRaw em bytes
    { m with policy := { m.policy with precedingCharacter := none } }
  | .control byte => if byte = 0x07 then m.pushEvent .audibleBell else m.feedRaw em [byte]

/-- Printing and feeding touch no part of the filter but the preceding character. -/
theorem hand_policy (m : Machine R) (t : TextToken) :
    ∃ preceding, (m.hand em t).policy = { m.policy with precedingCharacter := preceding } := by
  cases t with
  | character c =>
    unfold hand printCharacter
    dsimp only
    split
    · exact ⟨some c, rfl⟩
    · exact ⟨m.policy.precedingCharacter, rfl⟩
  | fragment bytes => exact ⟨none, rfl⟩
  | control byte =>
    dsimp only [hand]
    split
    · exact ⟨m.policy.precedingCharacter, rfl⟩
    · exact ⟨m.policy.precedingCharacter, rfl⟩

theorem hands_policy (tokens : List TextToken) (m : Machine R) :
    ∃ preceding, (tokens.foldl (hand em) m).policy =
      { m.policy with precedingCharacter := preceding } := by
  induction tokens generalizing m with
  | nil => exact ⟨m.policy.precedingCharacter, rfl⟩
  | cons t tokens ih =>
    obtain ⟨q, hq⟩ := hand_policy em m t
    obtain ⟨r, hr⟩ := ih (m.hand em t)
    exact ⟨r, by rw [List.foldl_cons, hr, hq]⟩

theorem hands_state (tokens : List TextToken) (m : Machine R) :
    (tokens.foldl (hand em) m).policy.state = m.policy.state := by
  obtain ⟨_, h⟩ := hands_policy em tokens m
  rw [h]

theorem setState_self {m : Machine R} {state : PolicyState} (h : m.policy.state = state) :
    m.setState state = m := by
  subst h
  rfl

theorem flushPartialUtf8_hands (m : Machine R) :
    m.flushPartialUtf8 em = (flushTokens m.policy.utf8).foldl (hand em) (m.setPending []) := by
  unfold flushPartialUtf8 flushTokens
  cases hp : m.policy.utf8 with
  | nil =>
    obtain ⟨policy, engine, output⟩ := m
    obtain ⟨state, utf8, preceding, boundary, synchronized⟩ := policy
    obtain rfl : utf8 = [] := hp
    rfl
  | cons b p =>
    have hfeed : m.feedPending em (b :: p).length =
        (m.setPending []).hand em (.fragment (b :: p)) := by
      unfold feedPending
      rw [hp, List.take_length, List.drop_length]
      rfl
    simpa using hfeed

theorem drainUtf8_hands (fuel : Nat) (m : Machine R) :
    drainUtf8 em fuel m = (drainTokens fuel m.policy.utf8).1.foldl (hand em)
      (m.setPending (drainTokens fuel m.policy.utf8).2) := by
  induction fuel generalizing m with
  | zero => rfl
  | succ fuel ih =>
    unfold drainUtf8 drainTokens
    cases hr : fromUtf8 m.policy.utf8 with
    | ok text =>
      cases text with
      | nil => rfl
      | cons c text => rfl
    | error error =>
      dsimp only
      split
      · rfl
      · -- what is given up is handed over before the rest is drained
        have hpending : ∀ n, (m.feedPending em n).policy.utf8 = m.policy.utf8.drop n := fun _ => rfl
        rw [hpending]
        split
        · rfl
        · rw [ih]
          rfl

/-- A byte in the ground state hands over its tokens and keeps the rest pending. -/
theorem processByte_ground (m : Machine R) (hg : m.policy.state = .ground) (byte : UInt8) :
    m.processByte em byte =
      (.ok (), ((groundTokens m.policy.utf8 byte).1.foldl (hand em)
        (m.setPending (groundTokens m.policy.utf8 byte).2)).setState
          (groundState m.policy.utf8 byte)) := by
  have hstay : ∀ (tokens : List TextToken) (pending : List UInt8),
      (tokens.foldl (hand em) (m.setPending pending)).setState .ground =
        tokens.foldl (hand em) (m.setPending pending) := fun tokens _ =>
    setState_self ((hands_state em tokens _).trans hg)
  unfold processByte
  rw [hg, setState_self hg]
  refine congrArg (Prod.mk _) ?_
  have hc1 : (if m.policy.utf8.isEmpty then c1Introducer byte else none) =
      c1State m.policy.utf8 byte := rfl
  rw [processGround, hc1]
  unfold groundTokens groundState introduces
  by_cases hesc : byte = 0x1b
  · simp only [hesc, ↓reduceIte, beq_self_eq_true, Bool.true_or, flushPartialUtf8_hands]
  rw [if_neg hesc, if_neg hesc, beq_false_of_ne hesc, Bool.false_or]
  cases hc : c1State m.policy.utf8 byte with
  | some state =>
    have hempty : m.policy.utf8 = [] := by
      unfold c1State at hc
      split at hc
      · rename_i he
        exact List.isEmpty_iff.mp he
      · cases hc
    rw [hempty]
    have hpending : m.setPending [] = m := hempty ▸ rfl
    simp [flushTokens, hpending]
  | none =>
    simp only [Option.isSome_none, Bool.false_eq_true, ↓reduceIte, Option.getD_none, hstay]
    split
    · rw [flushPartialUtf8_hands, List.foldl_append]
      rfl
    split
    · rename_i hascii
      have hpending : m.setPending [] = m := List.isEmpty_iff.mp hascii.2 ▸ rfl
      simp [hpending, hand]
    · rw [drainUtf8_hands]
      rfl

/-! ### The drain loop ends -/

theorem scan_invalid_pos {bs : List UInt8} {n : Nat} (h : scan bs = .invalid n) : 0 < n := by
  have hs := scan_scans bs
  rw [h] at hs
  cases hs with
  | invalid bad rest pos => exact List.length_pos_iff.mpr pos

theorem errorLen_pos {bs : List UInt8} {e : Utf8Error} {n : Nat} (h : fromUtf8 bs = .error e)
    (hn : e.errorLen = some n) : 0 < n := by
  have aux : ∀ fuel start bs, fromUtf8Aux fuel start bs = .error e → 0 < n := by
    intro fuel
    induction fuel with
    | zero => exact fun _ _ h => nomatch h
    | succ fuel ih =>
      intro start bs h
      cases bs with
      | nil => cases h
      | cons b bs =>
        unfold fromUtf8Aux at h
        split at h
        · split at h
          · cases h
          · rename_i hrest
            cases h
            exact ih _ _ hrest
        · rename_i k hk
          cases h
          cases hn
          exact scan_invalid_pos hk
        · cases h
          cases hn
  exact aux _ _ _ h

/-- Each further round has given up a byte, so more rounds than bytes change nothing. -/
theorem drainTokens_stable {fuel fuel' : Nat} {pending : List UInt8} (h : pending.length < fuel)
    (h' : pending.length < fuel') : drainTokens fuel pending = drainTokens fuel' pending := by
  induction fuel generalizing fuel' pending with
  | zero => omega
  | succ fuel ih =>
    obtain ⟨fuel', rfl⟩ : ∃ k, fuel' = k + 1 := ⟨fuel' - 1, by omega⟩
    unfold drainTokens
    cases hr : fromUtf8 pending with
    | ok text => cases text <;> rfl
    | error error =>
      dsimp only
      split
      · rfl
      split
      · rfl
      · rename_i hrest
        have hpos : 0 < error.errorLen.getD 1 := by
          cases hn : error.errorLen with
          | none => exact Nat.one_pos
          | some n => exact errorLen_pos hr hn
        have hshort : (pending.drop (min (error.errorLen.getD 1) pending.length)).length <
            pending.length := by
          have hne : pending ≠ [] := by rintro rfl; cases hr
          have := List.length_pos_iff.mpr hne
          rw [List.length_drop]
          omega
        have hrounds : drainTokens fuel _ = drainTokens fuel' _ :=
          ih (lt_of_lt_of_le hshort (Nat.le_of_lt_succ h))
            (lt_of_lt_of_le hshort (Nat.le_of_lt_succ h'))
        rw [hrounds]

theorem drainUtf8_stable (m : Machine R) {fuel : Nat} (h : m.policy.utf8.length < fuel) :
    drainUtf8 em fuel m = drainUtf8 em (m.policy.utf8.length + 1) m := by
  rw [drainUtf8_hands, drainUtf8_hands, drainTokens_stable h (Nat.lt_succ_self _)]

end Machine

end Voytty.Terminal
