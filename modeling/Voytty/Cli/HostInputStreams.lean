import Voytty.Cli.HostInputBytes

/-!
# Streams of input

The codec's loop ends, and its runs are runs of the incremental decoder of
`HostInputChunks`; the command mode acts on units one by one. With both, what
becomes of an orderly stream does not depend on its chunks
(`HostInput.receiveAll_chunks`).
-/

namespace Voytty.Cli

open Voytty.Lib Voytty.Terminal

namespace HostInputCodec

variable {v : Vendor} {c c' : HostInputCodec} {out : List HostInputEvent}

/-! ## The loop ends -/

theorem next_weight (h : next v c = .go out c') : c'.weight < c.weight := by
  by_cases hp : c.pending = []
  · rw [next_empty hp] at h; cases h
  have hpassed := turn_passed (v := v) hp
  rw [← next_nonempty hp, h] at hpassed
  cases hpassed with
  | go _ _ hless => exact hless

/-! ## Events and their units -/

theorem pushEvent_units (events : List HostInputEvent) (event : HostInputEvent) :
    (pushEvent events event).flatMap HostInputEvent.units =
      events.flatMap HostInputEvent.units ++ event.units := by
  unfold pushEvent
  split
  · rename_i previous bytes hlast
    obtain ⟨init, rfl⟩ := List.getLast?_eq_some_iff.1 hlast
    simp [HostInputEvent.units]
  · simp

theorem foldl_pushEvent_units (more events : List HostInputEvent) :
    (more.foldl pushEvent events).flatMap HostInputEvent.units =
      events.flatMap HostInputEvent.units ++ more.flatMap HostInputEvent.units := by
  induction more generalizing events with
  | nil => simp
  | cons event more ih => rw [List.foldl_cons, ih, pushEvent_units]; simp

variable {us : List HostInputEvent} {t : HostInputCodec}

theorem loop_run (h : Run v c us t) {fuel : Nat} (hfuel : c.weight ≤ fuel)
    (events : List HostInputEvent) :
    ∃ emitted, loop v fuel events c = .ok (emitted, t) ∧
      emitted.flatMap HostInputEvent.units = events.flatMap HostInputEvent.units ++ us := by
  induction h generalizing fuel events with
  | @stop c t out _ h =>
    by_cases hp : c.pending = []
    · rw [next_empty hp] at h
      cases h
      exact ⟨events, loop_idle hp fuel, by simp⟩
    · rw [next_nonempty hp] at h
      have hlen := List.length_pos_of_ne_nil hp
      cases fuel with
      | zero => unfold weight at hfuel; omega
      | succ fuel =>
        refine ⟨out.foldl pushEvent events, ?_, foldl_pushEvent_units out events⟩
        rw [loop, if_neg (by simpa using hp), h]
  | @go c c' t out us _ h hrest ih =>
    have hlt := next_weight h
    by_cases hp : c.pending = []
    · rw [next_empty hp] at h; cases h
    cases fuel with
    | zero => omega
    | succ fuel =>
      have hfuel' : c'.weight ≤ fuel := by omega
      obtain ⟨emitted, hloop, hunits⟩ := ih hfuel' (out.foldl pushEvent events)
      refine ⟨emitted, ?_, ?_⟩
      · rw [next_nonempty hp] at h
        rw [loop, if_neg (by simpa using hp), h]
        exact hloop
      · rw [hunits, foldl_pushEvent_units, List.append_assoc]

theorem feed_run {bytes : List UInt8} (h : Run v (c.extend bytes) us t) :
    ∃ emitted, c.feed v bytes = .ok (emitted, t) ∧
      emitted.flatMap HostInputEvent.units = us :=
  loop_run h (weight_extend bytes) []

/-- Every state the loop passes is tame. -/
def tameRun (v : Vendor) : Nat → HostInputCodec → Bool
  | 0, _ => false
  | fuel + 1, c =>
    c.tameState &&
      match next v c with
      | .go _ c' => tameRun v fuel c'
      | .stop .. => true
      | .fail _ => false

theorem run_of_tame {fuel : Nat} (h : tameRun v fuel c = true) : ∃ us t, Run v c us t := by
  induction fuel generalizing c with
  | zero => cases h
  | succ fuel ih =>
    simp only [tameRun, Bool.and_eq_true] at h
    obtain ⟨htame, hnext⟩ := h
    split at hnext
    · rename_i out c' hgo
      obtain ⟨us, t, hrun⟩ := ih hnext
      exact ⟨_, t, .go htame hgo hrun⟩
    · rename_i out c' hstop
      exact ⟨_, _, .stop htame hstop⟩
    · cases hnext

theorem feeds_chunks {chunks : List (List UInt8)} (h : Run v (new.extend chunks.flatten) us t) :
    ∃ t', Feeds (next v) HostInputEvent.units (fun c => c.tameState = true) extend
      new chunks us t' := by
  have hcut : ∀ (c : HostInputCodec) (rest : List UInt8), (c.extend rest).tameState = true →
      c.tameState = true ∧ Cut v c rest := fun _ _ => cuts
  obtain ⟨t', hfeeds⟩ : ∃ t', Feeds (next v) HostInputEvent.units (fun c => c.tameState = true)
      extend new ([] :: chunks) us t' := Decodes.feeds hcut (fun _ => extend_append) h
  cases hfeeds with
  | cons first rest =>
    rw [extend_nil] at first
    cases first with
    | stop _ hstop => cases hstop; exact ⟨t', rest⟩
    | go _ hgo _ => cases hgo

end HostInputCodec

/-- Within one epoch and geometry nothing unfinished belongs to another. -/
def LifetimeCodec.current (epoch geometry : Nat) (c : LifetimeCodec) : Prop :=
  c.pendingEpoch.getD epoch = epoch ∧ c.pendingGeometry.getD geometry = geometry

theorem LifetimeCodec.feedForLifetimes_current {v : Vendor} {c : LifetimeCodec}
    {epoch geometry : Nat} {bytes : List UInt8} {events : List HostInputEvent}
    {codec : HostInputCodec} (h : c.current epoch geometry)
    (hfeed : c.codec.feed v bytes = .ok (events, codec)) :
    ∃ c', c.feedForLifetimes v bytes epoch epoch geometry geometry = .ok (events, c') ∧
      c'.codec = codec ∧ c'.current epoch geometry := by
  have hkeep : ∀ f g : HostInputEvent → Bool, (∀ event, f event = true) →
      (∀ event, g event = true) → (events.filter g).filter f = events := by
    intro f g hf hg
    rw [List.filter_eq_self.2 fun event _ => hg event, List.filter_eq_self.2 fun event _ => hf event]
  refine ⟨⟨codec, if codec.midUnit then some (c.pendingEpoch.getD epoch) else none,
    (if codec.midUnit then some (c.pendingEpoch.getD epoch) else none).map
      fun _ => c.pendingGeometry.getD geometry⟩, ?_, rfl, ?_⟩
  · unfold feedForLifetimes
    rw [hfeed]
    refine congrArg (fun events => Except.ok (events, _)) (hkeep _ _ ?_ ?_)
    · intro event; cases event <;> simp [h.1]
    · intro event; cases event <;> simp [h.2]
  · cases hmid : codec.midUnit with
    | true => exact ⟨h.1, h.2⟩
    | false => exact ⟨rfl, rfl⟩

/-! ## The command mode on units -/

namespace Observed

theorem append_assoc (a b d : Observed) : (a.append b).append d = a.append (b.append d) := by
  simp [append]

@[simp] theorem append_none (a : Observed) : a.append .none = a := by simp [append, none]

@[simp] theorem none_append (a : Observed) : none.append a = a := by simp [append, none]

end Observed

def Observed.acts (o : Observed) (actions : List PrefixAction) : Observed :=
  actions.foldl (fun o action => o.append action.observed) o

theorem Observed.acts_eq (o : Observed) (actions : List PrefixAction) :
    o.acts actions = o.append (Observed.none.acts actions) := by
  induction actions generalizing o with
  | nil => exact (append_none o).symm
  | cons action actions ih =>
    change (o.append action.observed).acts actions =
      o.append ((none.append action.observed).acts actions)
    rw [ih, ih (none.append _), none_append, append_assoc]

theorem Observed.acts_append (o : Observed) (actions more : List PrefixAction) :
    o.acts (actions ++ more) = (o.acts actions).acts more :=
  List.foldl_append

def summary (actions : List PrefixAction) (ordinary : List UInt8) : Observed :=
  (Observed.none.acts actions).append ⟨[], ordinary, []⟩

def flushed (ordinary : List UInt8) : List PrefixAction :=
  if ordinary.isEmpty then [] else [.input (.forwardedBytes ordinary)]

theorem acts_flushed (o : Observed) (actions : List PrefixAction) (ordinary : List UInt8) :
    o.acts (actions ++ flushed ordinary) = o.append (summary actions ordinary) := by
  rw [Observed.acts_eq, Observed.acts_append]
  congr 1
  unfold flushed summary
  split
  · rename_i hempty
    rw [List.isEmpty_iff.1 hempty]
    exact (Observed.append_none _).symm
  · rfl

namespace CommandMode

variable {m : CommandMode} {reportEvents : Bool}

def roomy (reportEvents : Bool) (m : CommandMode) : Bool :=
  !reportEvents || m.ownedKeys.length < heldCommandKeys

theorem roomy_of_le {m' : CommandMode} (h : m.roomy reportEvents = true)
    (hle : m'.ownedKeys.length ≤ m.ownedKeys.length) : m'.roomy reportEvents = true := by
  simp only [roomy, Bool.or_eq_true, decide_eq_true_eq] at h ⊢
  exact h.imp_right hle.trans_lt

theorem own_ok (input : KeyInput) (h : m.roomy reportEvents = true) :
    ∃ m', m.own input reportEvents = .ok m' := by
  unfold own
  split
  · exact ⟨_, rfl⟩
  · rename_i hreport
    split
    · exact ⟨_, rfl⟩
    · simp only [roomy, hreport, Bool.false_or, decide_eq_true_eq] at h
      rw [if_neg (by omega)]
      exact ⟨_, rfl⟩

theorem freshKey_ok (input : KeyInput) (h : m.roomy reportEvents = true) :
    ∃ r, m.freshKey input reportEvents = .ok r := by
  unfold freshKey
  split
  · dsimp only
    split
    · exact ⟨_, rfl⟩
    · obtain ⟨m', hm'⟩ := own_ok (m := { m with pending := false }) input (roomy_of_le h le_rfl)
      rw [hm']
      exact ⟨_, rfl⟩
  · split
    · obtain ⟨m', hm'⟩ := own_ok input h
      rw [hm']
      exact ⟨_, rfl⟩
    · exact ⟨_, rfl⟩

theorem swapRemove_length (keys : List KeyIdentity) (index : Nat) :
    (swapRemove keys index).length ≤ keys.length := by
  unfold swapRemove
  split
  · exact le_rfl
  · simp

theorem key_ok (input : KeyInput) (h : m.roomy reportEvents = true) :
    ∃ r, m.key input reportEvents = .ok r := by
  cases input with
  | legacy byte =>
    refine freshKey_ok _ (roomy_of_le h ?_)
    split
    · exact List.length_filter_le _ _
    · exact le_rfl
  | enhanced report =>
    unfold key
    dsimp only
    split
    · rename_i index hindex
      split
      · exact ⟨_, rfl⟩
      split
      · exact ⟨_, rfl⟩
      split
      · exact ⟨_, rfl⟩
      · exact freshKey_ok _ (roomy_of_le h (swapRemove_length _ _))
    · split
      · exact ⟨_, rfl⟩
      · exact freshKey_ok _ h

theorem routeKey_ok (event : HostInputEvent) (input : KeyInput) (h : m.roomy reportEvents = true) :
    ∃ r, m.routeKey event input reportEvents = .ok r := by
  obtain ⟨⟨route, m'⟩, hkey⟩ := key_ok input h
  unfold routeKey
  rw [hkey]
  exact ⟨_, rfl⟩

def routedByte (byte : UInt8) (m : CommandMode) (actions : List PrefixAction)
    (ordinary : List UInt8) : KeyRoute → List PrefixAction × List UInt8 × CommandMode
  | .forward => (actions, ordinary ++ [byte], m)
  | .consume => (actions, ordinary, { m with cancelledUtf8Tail := tailLength byte })
  | .command command => (actions ++ flushed ordinary ++ [.command command], [], m)

theorem feedByte_key {byte : UInt8} {route : KeyRoute} {m' : CommandMode}
    (htail : ¬ (m.cancelledUtf8Tail ≠ 0 ∧ isTail byte = true))
    (hkey : key { m with cancelledUtf8Tail := 0 } (.legacy byte) reportEvents = .ok (route, m'))
    (actions : List PrefixAction) (ordinary : List UInt8) :
    feedByte reportEvents (actions, ordinary, m) byte =
      .ok (routedByte byte m' actions ordinary route) := by
  refine (if_neg htail).trans ?_
  dsimp only
  rw [hkey]
  cases route <;> rfl

theorem feedByte_ok (byte : UInt8) (h : m.roomy reportEvents = true)
    (actions : List PrefixAction) (ordinary : List UInt8) :
    ∃ first rest m', feedByte reportEvents ([], [], m) byte = .ok (first, rest, m') ∧
      ∃ actions' ordinary', feedByte reportEvents (actions, ordinary, m) byte =
          .ok (actions', ordinary', m') ∧
        summary actions' ordinary' = (summary actions ordinary).append (summary first rest) := by
  by_cases htail : m.cancelledUtf8Tail ≠ 0 ∧ isTail byte = true
  · refine ⟨[], [], _, if_pos htail, actions, ordinary, if_pos htail, ?_⟩
    exact (Observed.append_none _).symm
  · obtain ⟨⟨route, m'⟩, hkey⟩ := key_ok (m := { m with cancelledUtf8Tail := 0 }) (.legacy byte)
      (roomy_of_le h le_rfl)
    have hbyte := feedByte_key htail hkey
    cases route with
    | forward =>
      refine ⟨_, _, _, hbyte _ _, _, _, hbyte _ _, ?_⟩
      simp [summary, Observed.acts, Observed.append, Observed.none]
    | consume =>
      refine ⟨_, _, _, hbyte _ _, _, _, hbyte _ _, ?_⟩
      exact (Observed.append_none _).symm
    | command run =>
      refine ⟨_, _, _, hbyte _ _, _, _, hbyte _ _, ?_⟩
      change (Observed.none.acts (actions ++ flushed ordinary ++ [.command run])).append _ =
        (summary actions ordinary).append _
      rw [Observed.acts_append, acts_flushed, Observed.none_append, Observed.acts_eq,
        Observed.append_assoc]
      rfl

end CommandMode

namespace HostInput

variable {v : Vendor} {reportEvents : Bool} {epoch geometry : Nat} {s : HostInput}

/-- At every unit there is room for another held command key. -/
def keysFree (reportEvents : Bool) : HostInput → List HostInputEvent → Bool
  | _, [] => true
  | s, unit :: units =>
    s.mode.roomy reportEvents && keysFree reportEvents (s.pass reportEvents unit) units

theorem pass_bytes {bytes : List UInt8} {actions : List PrefixAction} {ordinary : List UInt8}
    {m : CommandMode} (hs : s.failed = none)
    (h : bytes.foldlM (CommandMode.feedByte reportEvents) ([], [], s.mode) =
      .ok (actions, ordinary, m)) :
    s.pass reportEvents (.bytes bytes) =
      { s with mode := m, observed := s.observed.append (summary actions ordinary) } := by
  have hroute : s.mode.route (.bytes bytes) reportEvents = .ok (actions ++ flushed ordinary, m) := by
    change (bytes.foldlM (CommandMode.feedByte reportEvents) ([], [], s.mode) >>= _) = _
    rw [h]
    rfl
  unfold pass
  rw [if_neg (by simp [hs])]
  dsimp only
  rw [hroute, ← acts_flushed]
  rfl

theorem bytes_units (bytes : List UInt8) (rest : List HostInputEvent)
    (actions : List PrefixAction) (ordinary : List UInt8) (o : Observed) (hs : s.failed = none)
    (hobserved : s.observed = o.append (summary actions ordinary))
    (hfree : keysFree reportEvents s ((bytes.map fun byte => .bytes [byte]) ++ rest) = true) :
    ∃ actions' ordinary' m',
      bytes.foldlM (CommandMode.feedByte reportEvents) (actions, ordinary, s.mode) =
          .ok (actions', ordinary', m') ∧
        (bytes.map fun byte => HostInputEvent.bytes [byte]).foldl (pass reportEvents) s =
          { s with mode := m', observed := o.append (summary actions' ordinary') } ∧
        keysFree reportEvents
          { s with mode := m', observed := o.append (summary actions' ordinary') } rest = true := by
  induction bytes generalizing s actions ordinary with
  | nil => exact ⟨actions, ordinary, s.mode, rfl, by rw [← hobserved]; rfl, by
      rw [← hobserved]; exact hfree⟩
  | cons byte bytes ih =>
    simp only [List.map_cons, List.cons_append, keysFree, Bool.and_eq_true] at hfree
    obtain ⟨hroomy, hfree⟩ := hfree
    obtain ⟨first, after, m', hsingle, actions', ordinary', hbyte, hsummary⟩ :=
      CommandMode.feedByte_ok byte hroomy actions ordinary
    have hpass : s.pass reportEvents (.bytes [byte]) =
        { s with mode := m', observed := s.observed.append (summary first after) } :=
      pass_bytes hs (by rw [List.foldlM_cons, hsingle]; rfl)
    rw [hpass] at hfree
    obtain ⟨actions'', ordinary'', m'', hfold, hunits, hrest⟩ :=
      ih (s := { s with mode := m', observed := s.observed.append (summary first after) })
        actions' ordinary' hs (by rw [hobserved, hsummary, Observed.append_assoc]) hfree
    refine ⟨actions'', ordinary'', m'', ?_, ?_, hrest⟩
    · rw [List.foldlM_cons, hbyte]
      exact hfold
    · rw [List.map_cons, List.foldl_cons, hpass]
      exact hunits

theorem routed_failed (event : HostInputEvent) (hs : s.failed = none)
    (h : ∃ r, s.mode.route event reportEvents = .ok r) :
    (match s.mode.route event reportEvents with
      | .error error => { s with failed := some error }
      | .ok (actions, mode) =>
        { s with mode := mode, observed := s.observed.acts actions }).failed = none := by
  obtain ⟨⟨actions, mode⟩, hr⟩ := h
  rw [hr]
  exact hs

theorem pass_unit {event : HostInputEvent} (hs : s.failed = none)
    (hroomy : s.mode.roomy reportEvents = true) (hunit : ∀ bytes, event ≠ .bytes bytes) :
    (s.pass reportEvents event).failed = none := by
  have hroute : ∀ event, (∃ r, s.mode.route event reportEvents = .ok r) → _ := fun event =>
    routed_failed event hs
  unfold pass
  rw [if_neg (by simp [hs])]
  cases event with
  | bytes bytes => exact absurd rfl (hunit bytes)
  | terminalReply reply count => dsimp only; split <;> exact hs
  | opaqueBytes bytes =>
    refine hroute (.opaqueBytes bytes) ?_
    simp only [CommandMode.route]
    split <;> exact ⟨_, rfl⟩
  | legacyCtrlC | enhancedKey | pageUp | pageDown =>
    exact hroute _ (CommandMode.routeKey_ok _ _ hroomy)
  | focusReport bytes => exact hroute (.focusReport bytes) ⟨_, rfl⟩
  | forwardedBytes bytes => exact hroute (.forwardedBytes bytes) ⟨_, rfl⟩
  | paste bytes => exact hroute (.paste bytes) ⟨_, rfl⟩
  | mouse report => exact hroute (.mouse report) ⟨_, rfl⟩

theorem pass_units (event : HostInputEvent) (rest : List HostInputEvent) (hs : s.failed = none)
    (hfree : keysFree reportEvents s (event.units ++ rest) = true) :
    s.pass reportEvents event = event.units.foldl (pass reportEvents) s ∧
      (s.pass reportEvents event).failed = none ∧
      keysFree reportEvents (s.pass reportEvents event) rest = true := by
  have hsingle : event.units = [event] → (∀ bytes, event ≠ .bytes bytes) →
      s.pass reportEvents event = event.units.foldl (pass reportEvents) s ∧
      (s.pass reportEvents event).failed = none ∧
      keysFree reportEvents (s.pass reportEvents event) rest = true := by
    intro hunits hunit
    rw [hunits] at hfree ⊢
    simp only [List.cons_append, List.nil_append, keysFree, Bool.and_eq_true] at hfree
    exact ⟨rfl, pass_unit hs hfree.1 hunit, hfree.2⟩
  cases event with
  | bytes bytes =>
    obtain ⟨actions, ordinary, m, hfold, hunits, hrest⟩ :=
      bytes_units bytes rest [] [] s.observed hs (Observed.append_none _).symm hfree
    have hpass := pass_bytes hs hfold
    rw [hpass]
    exact ⟨hunits.symm, hs, hrest⟩
  | terminalReply reply count =>
    have hpass : ∀ n, s.pass reportEvents (.terminalReply reply n) =
        if reply = .ignored then s
        else { s with observed := s.observed.append ⟨[], [], [reply]⟩ } := fun n => by
      unfold pass
      rw [if_neg (by simp [hs])]
    have hnone : (s.pass reportEvents (.terminalReply reply count)).failed = none := by
      rw [hpass]; split <;> exact hs
    by_cases hreply : reply = .ignored
    · subst hreply
      rw [hpass, if_pos rfl]
      exact ⟨rfl, hs, hfree⟩
    · have hunits : (HostInputEvent.terminalReply reply count).units = [.terminalReply reply 0] := by
        cases reply <;> first | rfl | exact absurd rfl hreply
      rw [hunits] at hfree ⊢
      simp only [List.cons_append, List.nil_append, keysFree, Bool.and_eq_true] at hfree
      have hsame : s.pass reportEvents (.terminalReply reply count) =
          s.pass reportEvents (.terminalReply reply 0) := by rw [hpass, hpass]
      exact ⟨hsame, hnone, by rw [hsame]; exact hfree.2⟩
  | _ => exact hsingle rfl nofun

theorem events_units (events rest : List HostInputEvent) (hs : s.failed = none)
    (hfree : keysFree reportEvents s (events.flatMap HostInputEvent.units ++ rest) = true) :
    events.foldl (pass reportEvents) s =
        (events.flatMap HostInputEvent.units).foldl (pass reportEvents) s ∧
      (events.foldl (pass reportEvents) s).failed = none ∧
      keysFree reportEvents (events.foldl (pass reportEvents) s) rest = true := by
  induction events generalizing s with
  | nil => exact ⟨rfl, hs, hfree⟩
  | cons event events ih =>
    rw [List.flatMap_cons, List.append_assoc] at hfree
    obtain ⟨hpass, hnone, hfree⟩ := pass_units event _ hs hfree
    obtain ⟨hrest, hfailed, hkeys⟩ := ih hnone hfree
    refine ⟨?_, hfailed, hkeys⟩
    rw [List.foldl_cons, List.flatMap_cons, List.foldl_append, ← hpass, hrest]

/-! ## Chunks -/

def withCodec (s : HostInput) (k : LifetimeCodec) : HostInput := { s with codec := k }

theorem pass_codec (k : LifetimeCodec) (event : HostInputEvent) :
    (s.withCodec k).pass reportEvents event =
      (s.pass reportEvents event).withCodec k := by
  unfold pass withCodec
  dsimp only
  split
  · rfl
  split
  · split <;> rfl
  · cases s.mode.route event reportEvents <;> rfl

theorem foldl_pass_codec (k : LifetimeCodec) (units : List HostInputEvent) :
    units.foldl (pass reportEvents) (s.withCodec k) =
      (units.foldl (pass reportEvents) s).withCodec k := by
  induction units generalizing s with
  | nil => rfl
  | cons unit units ih => rw [List.foldl_cons, List.foldl_cons, pass_codec, ih]

theorem keysFree_codec (k : LifetimeCodec) (units : List HostInputEvent) :
    keysFree reportEvents (s.withCodec k) units = keysFree reportEvents s units := by
  induction units generalizing s with
  | nil => rfl
  | cons unit units ih => rw [keysFree, keysFree, pass_codec, ih]; rfl

theorem receive_run {chunk : List UInt8} {us rest : List HostInputEvent} {t : HostInputCodec}
    (hs : s.failed = none) (hcurrent : s.codec.current epoch geometry)
    (hrun : HostInputCodec.Run v (s.codec.codec.extend chunk) us t)
    (hfree : keysFree reportEvents s (us ++ rest) = true) :
    ∃ k : LifetimeCodec, k.codec = t ∧ k.current epoch geometry ∧
      receive v reportEvents epoch geometry s chunk =
        (us.foldl (pass reportEvents) s).withCodec k ∧
      (us.foldl (pass reportEvents) s).failed = none ∧
      keysFree reportEvents (us.foldl (pass reportEvents) s) rest = true := by
  obtain ⟨events, hfeed, rfl⟩ := HostInputCodec.feed_run hrun
  obtain ⟨k, hlifetimes, hk, hcurrent'⟩ := LifetimeCodec.feedForLifetimes_current hcurrent hfeed
  obtain ⟨hunits, hnone, hkeys⟩ := events_units events rest hs hfree
  rw [hunits] at hnone hkeys
  refine ⟨k, hk, hcurrent', ?_, hnone, hkeys⟩
  rw [receive, if_neg (by simp [hs]), hlifetimes, ← hunits]
  exact foldl_pass_codec k events

theorem receives_units {c t : HostInputCodec} {chunks : List (List UInt8)}
    {us : List HostInputEvent}
    (hfeeds : Feeds (HostInputCodec.next v) HostInputEvent.units (fun c => c.tameState = true)
      HostInputCodec.extend c chunks us t)
    (hc : s.codec.codec = c) (hs : s.failed = none) (hcurrent : s.codec.current epoch geometry)
    (hfree : keysFree reportEvents s us = true) :
    ∃ k, chunks.foldl (receive v reportEvents epoch geometry) s =
        (us.foldl (pass reportEvents) s).withCodec k ∧
      (us.foldl (pass reportEvents) s).failed = none := by
  induction hfeeds generalizing s with
  | nil c => exact ⟨s.codec, rfl, hs⟩
  | @cons c c' t chunk chunks us ws first _ ih =>
    subst hc
    obtain ⟨k, hk, hkcurrent, hreceive, hnone, hkeys⟩ := receive_run hs hcurrent first hfree
    rw [← keysFree_codec k] at hkeys
    obtain ⟨k', hfold, hfailed⟩ :=
      ih (s := (us.foldl (pass reportEvents) s).withCodec k) hk hnone hkcurrent hkeys
    rw [foldl_pass_codec] at hfold hfailed
    refine ⟨k', ?_, ?_⟩
    · rw [List.foldl_cons, hreceive, hfold, List.foldl_append]
      rfl
    · rw [List.foldl_append]
      exact hfailed

def streamUnits (v : Vendor) (stream : List UInt8) : List HostInputEvent :=
  match HostInputCodec.new.feed v stream with
  | .ok (events, _) => events.flatMap HostInputEvent.units
  | .error _ => []

/-- No control sequence, SS3 key or mouse report of the stream is longer than the bound, no
character is cut short by a paste, pastes are within their bound, and there is always room for
another held command key. -/
def orderly (v : Vendor) (reportEvents : Bool) (stream : List UInt8) : Bool :=
  HostInputCodec.tameRun v (2 * stream.length + 2) (HostInputCodec.new.extend stream) &&
    keysFree reportEvents new (streamUnits v stream)

variable (epoch geometry) in
theorem receiveAll_units {chunks : List (List UInt8)}
    (h : orderly v reportEvents chunks.flatten = true) :
    (receiveAll v reportEvents epoch geometry chunks).observed =
        ((streamUnits v chunks.flatten).foldl (pass reportEvents) new).observed ∧
      (receiveAll v reportEvents epoch geometry chunks).failed = none := by
  simp only [orderly, Bool.and_eq_true] at h
  obtain ⟨htame, hfree⟩ := h
  obtain ⟨us, t, hrun⟩ := HostInputCodec.run_of_tame htame
  have hunits : streamUnits v chunks.flatten = us := by
    obtain ⟨events, hfeed, hevents⟩ := HostInputCodec.feed_run hrun
    rw [streamUnits, hfeed]
    exact hevents
  rw [hunits] at hfree ⊢
  obtain ⟨t', hfeeds⟩ := HostInputCodec.feeds_chunks hrun
  have hcurrent : new.codec.current epoch geometry := ⟨rfl, rfl⟩
  obtain ⟨k, hfold, hnone⟩ := receives_units hfeeds rfl rfl hcurrent hfree
  rw [receiveAll, hfold]
  exact ⟨rfl, hnone⟩

/-- A control sequence of 67 bytes with a command key in it. -/
def overlong : List UInt8 := [0x1b, 0x5b] ++ List.replicate 62 0x31 ++ [0x1d, 0x2e, 0x75]

end HostInput

end Voytty.Cli
