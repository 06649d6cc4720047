import Voytty.Daemon.CandidateRegistry

/-!
# Waiting for promotion

Each candidate of a slot that finished its handshake runs a `promote_candidate`
loop: it asks the registry under the slot's lock and, told to wait, waits for the
slot's notifier until its deadline. Whoever changes the registry calls the
notifier after it let go of the lock.

The notifier wakes the waits whose future exists when it is called. A loop makes
its future after it was told to wait and let go of the lock, so a call between
the two does not wake it.
-/

namespace Voytty.Daemon

open Voytty.Lib Relation

variable {α : Type}

inductive PromoteState where
  | deciding
  | told
  /-- on its future; `polled` once the deadline was looked at -/
  | waiting (polled notified : Bool)
  /-- past its deadline, about to remove its candidate -/
  | expired
  | promoted
  | lost
  | missing
  | timedOut
  deriving DecidableEq, Repr

def PromoteState.runnable : PromoteState → Bool
  | .deciding | .told | .waiting false _ | .waiting true true | .expired => true
  | .waiting true false | .promoted | .lost | .missing | .timedOut => false

def PromoteState.blocked : PromoteState → Bool
  | .told | .waiting _ false => true
  | _ => false

/-- The loop has not returned and not given up. -/
def PromoteState.pending : PromoteState → Bool
  | .deciding | .told | .waiting _ _ => true
  | _ => false

/-- The steps of its own a loop may still take before it is promoted. -/
def PromoteState.distance : PromoteState → Nat
  | .told => 5
  | .waiting false false => 4
  | .waiting true false => 3
  | .waiting _ true => 2
  | .deciding => 1
  | .expired | .promoted | .lost | .missing | .timedOut => 0

def PromoteState.notified : PromoteState → PromoteState
  | .waiting polled _ => .waiting polled true
  | state => state

structure PromoteLoop where
  key : ConnectionCandidateKey
  deadline : Nat
  state : PromoteState
  deriving DecidableEq

/-- The slot of one peer; `unsent` counts those who changed it and are about to call the
notifier. -/
structure PeerSlot (α : Type) where
  candidates : CandidateRegistry α := {}
  loops : List PromoteLoop := []
  unsent : Nat := 0
  now : Nat := 0

inductive PeerEvent (α : Type) where
  | tick
  | register (key : ConnectionCandidateKey) (value : α)
  | promote (key : ConnectionCandidateKey) (deadline : Nat)
  /-- `remove_candidate`, `candidate_closed`, `retire_failed_candidate` with one key,
  `observe_incarnation` with all that a restart outdated -/
  | remove (keys : List ConnectionCandidateKey)
  | closeRemote
  | report
  | notifyWaiters
  | advance (loop : Nat)

namespace PeerSlot

def registerCandidate (s : PeerSlot α) (key : ConnectionCandidateKey) (value : α) : PeerSlot α :=
  match s.candidates.register key value with
  | (.error _, _) => s
  | (.ok (), candidates) => { s with candidates, unsent := s.unsent + 1 }

def removeCandidates (s : PeerSlot α) (keys : List ConnectionCandidateKey) : PeerSlot α :=
  { s with
    candidates := keys.foldl (fun r key => (r.remove key).2) s.candidates
    unsent := s.unsent + 1 }

def closeRemote (s : PeerSlot α) : PeerSlot α :=
  { s with candidates := s.candidates.takeAll.2, unsent := s.unsent + 1 }

def notifyWaiters (s : PeerSlot α) : PeerSlot α :=
  { s with
    loops := s.loops.map fun loop => { loop with state := loop.state.notified }
    unsent := s.unsent - 1 }

def setLoop (s : PeerSlot α) (i : Nat) (loop : PromoteLoop) (state : PromoteState) : PeerSlot α :=
  { s with loops := s.loops.set i { loop with state } }

def decideLoop (s : PeerSlot α) (i : Nat) (loop : PromoteLoop) : PeerSlot α :=
  let (outcome, candidates) := s.candidates.markReadyAndDecide loop.key
  let s := { s with candidates }
  match outcome with
  | .promoted _ => { s.setLoop i loop .promoted with unsent := s.unsent + 1 }
  | .lost _ => { s.setLoop i loop .lost with unsent := s.unsent + 1 }
  | .wait => s.setLoop i loop .told
  | .missing => s.setLoop i loop .missing

/-- One step of `promote_candidate`, `none` when it has to wait or has returned. -/
def advance (s : PeerSlot α) (i : Nat) (loop : PromoteLoop) : Option (PeerSlot α) :=
  match loop.state with
  | .deciding => some (s.decideLoop i loop)
  | .told => some (s.setLoop i loop (.waiting false false))
  | .waiting false notified =>
    -- the deadline is looked at before the future is polled for the first time
    if loop.deadline ≤ s.now then some (s.setLoop i loop .expired)
    else some (s.setLoop i loop (if notified then .deciding else .waiting true false))
  | .waiting true true => some (s.setLoop i loop .deciding)
  | .waiting true false =>
    if loop.deadline ≤ s.now then some (s.setLoop i loop .expired) else none
  | .expired => some ((s.removeCandidates [loop.key]).setLoop i loop .timedOut)
  | .promoted | .lost | .missing | .timedOut => none

def step (s : PeerSlot α) : PeerEvent α → Option (PeerSlot α)
  | .tick => some { s with now := s.now + 1 }
  | .register key value => some (s.registerCandidate key value)
  | .promote key deadline => some { s with loops := s.loops ++ [⟨key, deadline, .deciding⟩] }
  | .remove keys => some (s.removeCandidates keys)
  | .closeRemote => some s.closeRemote
  | .report => some { s with unsent := s.unsent + 1 }
  | .notifyWaiters => if s.unsent = 0 then none else some s.notifyWaiters
  | .advance i => s.loops[i]?.bind (s.advance i)

def run (s : PeerSlot α) (events : List (PeerEvent α)) : Option (PeerSlot α) :=
  events.foldlM step s

/-! ## What a step does -/

/-- A notification is not called while a loop that was told to wait and has not made its
future yet is already the minimum. -/
def Timely (s : PeerSlot α) : PeerEvent α → Prop
  | .notifyWaiters => ∀ loop ∈ s.loops, loop.state = .told → ¬s.candidates.IsMinimum loop.key
  | _ => True

instance (s : PeerSlot α) (event : PeerEvent α) : Decidable (s.Timely event) :=
  match event with
  | .notifyWaiters => inferInstanceAs (Decidable (∀ loop ∈ s.loops, _ → ¬_))
  | .tick | .register _ _ | .promote _ _ | .remove _ | .closeRemote | .report | .advance _ =>
    inferInstanceAs (Decidable True)

/-- A timely run over `events` whose states after the first all satisfy `P`. -/
def Along (P : PeerSlot α → Prop) : PeerSlot α → List (PeerEvent α) → PeerSlot α → Prop
  | s, [], s' => s' = s
  | s, event :: events, s' =>
    ∃ t, s.Timely event ∧ s.step event = some t ∧ P t ∧ Along P t events s'

theorem Along.last {P : PeerSlot α → Prop} :
    ∀ {events : List (PeerEvent α)} {s s' : PeerSlot α}, P s → Along P s events s' → P s'
  | [], _, _, hs, h => h ▸ hs
  | _ :: _, _, _, _, ⟨_, _, _, ht, hrest⟩ => hrest.last ht

/-- The end of such a run, when there is one. -/
def follow (P : PeerSlot α → Prop) [DecidablePred P] :
    PeerSlot α → List (PeerEvent α) → Option (PeerSlot α)
  | s, [] => some s
  | s, event :: events =>
    (s.step event).bind fun t => if s.Timely event ∧ P t then follow P t events else none

theorem follow_along {P : PeerSlot α → Prop} [DecidablePred P] :
    ∀ {events : List (PeerEvent α)} {s s' : PeerSlot α}, follow P s events = some s' →
      Along P s events s'
  | [], _, _, h => (Option.some.inj h).symm
  | event :: events, s, s', h => by
    obtain ⟨t, hstep, h⟩ := Option.bind_eq_some_iff.mp h
    split at h
    case isTrue hp => exact ⟨t, hp.1, hstep, hp.2, follow_along h⟩
    case isFalse => cases h

section Steps

variable {s s' : PeerSlot α} {event : PeerEvent α} {loop : PromoteLoop} {i j : Nat}

inductive Advances (s : PeerSlot α) (i : Nat) (loop : PromoteLoop) : PeerSlot α → Prop where
  | promoted {losers : List α} {r : CandidateRegistry α} (deciding : loop.state = .deciding)
      (decides : s.candidates.Decides loop.key (.promoted losers, r)) :
      Advances s i loop
        { s with
          candidates := r, loops := s.loops.set i { loop with state := .promoted }
          unsent := s.unsent + 1 }
  | lost {value : α} {r : CandidateRegistry α} (deciding : loop.state = .deciding)
      (decides : s.candidates.Decides loop.key (.lost value, r)) :
      Advances s i loop
        { s with
          candidates := r, loops := s.loops.set i { loop with state := .lost }
          unsent := s.unsent + 1 }
  | told (deciding : loop.state = .deciding) (above : ¬s.candidates.IsMinimum loop.key) :
      Advances s i loop (s.setLoop i loop .told)
  | missing (deciding : loop.state = .deciding) (out : loop.key ∉ s.candidates.entries) :
      Advances s i loop (s.setLoop i loop .missing)
  | waited {state : PromoteState} (pending : loop.state.pending) (going : state.pending)
      (blocked : state.blocked → loop.state.blocked)
      (closer : state.distance < loop.state.distance) :
      Advances s i loop (s.setLoop i loop state)
  | expired (pending : loop.state.pending) (late : loop.deadline ≤ s.now) :
      Advances s i loop (s.setLoop i loop .expired)
  | removed (expired : loop.state = .expired) :
      Advances s i loop ((s.removeCandidates [loop.key]).setLoop i loop .timedOut)

theorem decideLoop_advances (h : loop.state = .deciding) :
    s.Advances i loop (s.decideLoop i loop) := by
  have hd := s.candidates.markReadyAndDecide_decides loop.key
  simp only [decideLoop]
  generalize s.candidates.markReadyAndDecide loop.key = out at hd
  obtain ⟨decision, r⟩ := out
  cases decision with
  | promoted losers => exact .promoted h hd
  | lost value => exact .lost h hd
  | wait =>
    cases hd with
    | wait held below smaller undecided =>
      exact .told h fun hmin => smaller.not_ge (hmin.2 _ below)
  | missing =>
    cases hd with
    | missing out => exact .missing h out

theorem advance_advances (h : s.advance i loop = some s') : s.Advances i loop s' := by
  unfold advance at h
  split at h
  case h_1 hs =>
    obtain rfl := Option.some.inj h
    exact decideLoop_advances hs
  case h_2 hs =>
    obtain rfl := Option.some.inj h
    exact .waited (by simp [hs, PromoteState.pending]) rfl (by simp [hs, PromoteState.blocked])
      (by simp [hs, PromoteState.distance])
  case h_3 notified hs =>
    have hpending : loop.state.pending := by simp [hs, PromoteState.pending]
    split at h <;> obtain rfl := Option.some.inj h
    · exact .expired hpending ‹_›
    · cases notified <;>
        exact .waited hpending rfl (by simp [hs, PromoteState.blocked])
          (by simp [hs, PromoteState.distance])
  case h_4 hs =>
    obtain rfl := Option.some.inj h
    exact .waited (by simp [hs, PromoteState.pending]) rfl (by simp [PromoteState.blocked])
      (by simp [hs, PromoteState.distance])
  case h_5 hs =>
    split at h
    · obtain rfl := Option.some.inj h
      exact .expired (by simp [hs, PromoteState.pending]) ‹_›
    · cases h
  case h_6 hs =>
    obtain rfl := Option.some.inj h
    exact .removed hs
  all_goals cases h

variable {state : PromoteState} {r : CandidateRegistry α} {key : ConnectionCandidateKey}

theorem notified_blocked (h : state.notified.blocked) : state = .told := by
  cases state with
  | told => rfl
  | deciding | waiting | expired | promoted | lost | missing | timedOut => cases h

/-- The primary is registered, and a loop that was told to wait and not woken, and is the
minimum, has a notification coming. -/
structure Due (s : PeerSlot α) : Prop where
  held : s.candidates.PrimaryHeld
  due : ∀ loop ∈ s.loops, loop.state.blocked → s.candidates.IsMinimum loop.key → 0 < s.unsent

theorem foldl_remove_held (h : r.PrimaryHeld) (keys : List ConnectionCandidateKey) :
    (keys.foldl (fun r key => (r.remove key).2) r).PrimaryHeld :=
  List.foldlRecOn keys _ h fun _ ih key _ => ih.remove key

theorem Due.setLoop (h : s.Due)
    (hnew : state.blocked → s.candidates.IsMinimum loop.key → 0 < s.unsent) :
    (s.setLoop i loop state).Due := by
  refine ⟨h.held, fun l hl hblocked hmin => ?_⟩
  rcases List.mem_or_eq_of_mem_set hl with hl | rfl
  · exact h.due l hl hblocked hmin
  · exact hnew hblocked hmin

theorem Due.advances (h : s.Due) (hloop : s.loops[i]? = some loop) (ha : s.Advances i loop s') :
    s'.Due := by
  cases ha with
  | promoted deciding decides | lost deciding decides =>
    exact ⟨h.held.decides decides, fun _ _ _ _ => Nat.succ_pos _⟩
  | told deciding above => exact h.setLoop fun _ hmin => absurd hmin above
  | missing => exact h.setLoop nofun
  | waited pending going blocked closer =>
    exact h.setLoop fun hb hmin => h.due loop (List.mem_of_getElem? hloop) (blocked hb) hmin
  | expired => exact h.setLoop nofun
  | removed => exact ⟨h.held.remove loop.key, fun _ _ _ _ => Nat.succ_pos _⟩

theorem Due.step (h : s.Due) (htimely : s.Timely event) (hs : s.step event = some s') :
    s'.Due := by
  cases event with
  | tick =>
    obtain rfl := Option.some.inj hs
    exact ⟨h.held, h.due⟩
  | register key value =>
    obtain rfl := Option.some.inj hs
    simp only [registerCandidate, CandidateRegistry.register]
    by_cases hk : s.candidates.entries.contains key
    · simpa only [hk, if_true] using h
    · simp only [hk, Bool.false_eq_true, if_false]
      exact ⟨h.held.insert key value, fun _ _ _ _ => Nat.succ_pos _⟩
  | promote key deadline =>
    obtain rfl := Option.some.inj hs
    refine ⟨h.held, fun l hl hblocked hmin => ?_⟩
    rcases List.mem_append.mp hl with hl | hl
    · exact h.due l hl hblocked hmin
    · obtain rfl := List.mem_singleton.mp hl
      cases hblocked
  | remove keys =>
    obtain rfl := Option.some.inj hs
    exact ⟨foldl_remove_held h.held keys, fun _ _ _ _ => Nat.succ_pos _⟩
  | closeRemote =>
    obtain rfl := Option.some.inj hs
    exact ⟨by rintro _ ⟨⟩, fun _ _ _ _ => Nat.succ_pos _⟩
  | report =>
    obtain rfl := Option.some.inj hs
    exact ⟨h.held, fun _ _ _ _ => Nat.succ_pos _⟩
  | notifyWaiters =>
    simp only [PeerSlot.step] at hs
    split at hs
    · cases hs
    · obtain rfl := Option.some.inj hs
      refine ⟨h.held, fun l hl hblocked hmin => ?_⟩
      obtain ⟨old, hold, rfl⟩ := List.mem_map.mp hl
      exact absurd hmin (htimely old hold (notified_blocked hblocked))
  | advance i =>
    obtain ⟨loop, hloop, ha⟩ := Option.bind_eq_some_iff.mp hs
    exact h.advances hloop (advance_advances ha)

theorem Due.along {P : PeerSlot α → Prop} {events : List (PeerEvent α)} (h : s.Due)
    (hrun : Along P s events s') : s'.Due := by
  induction events generalizing s with
  | nil =>
    obtain rfl : s' = s := hrun
    exact h
  | cons event events ih =>
    obtain ⟨t, htimely, hstep, -, hrest⟩ := hrun
    exact ih (h.step htimely hstep) hrest

/-! ## Progress -/

/-- The candidate is the minimum and before its deadline. -/
def Leads (loop : PromoteLoop) (s : PeerSlot α) : Prop :=
  s.candidates.IsMinimum loop.key ∧ s.now < loop.deadline

instance (loop : PromoteLoop) : DecidablePred (Leads loop (α := α)) :=
  fun _ => inferInstanceAs (Decidable (_ ∧ _))

theorem minimum_unique {other : ConnectionCandidateKey} (h : r.IsMinimum key)
    (ho : r.IsMinimum other) : key = other :=
  (h.2 other ho.1).antisymm (ho.2 key h.1)

theorem mem_foldl_remove :
    ∀ (keys : List ConnectionCandidateKey) (r : CandidateRegistry α),
      key ∈ (keys.foldl (fun r k => (r.remove k).2) r).entries → key ∉ keys
  | [], _, _ => List.not_mem_nil
  | k :: keys, r, h => by
    have hrest := mem_foldl_remove keys _ h
    refine List.not_mem_cons_of_ne_of_not_mem ?_ hrest
    rintro rfl
    have hkept : ∀ (ks : List ConnectionCandidateKey) (r : CandidateRegistry α),
        key ∈ (ks.foldl (fun r k => (r.remove k).2) r).entries → key ∈ r.entries := by
      intro ks
      induction ks with
      | nil => exact fun _ h => h
      | cons k' ks ih => exact fun r h => (CandidateRegistry.mem_remove.mp (ih _ h)).2
    exact (CandidateRegistry.mem_remove.mp (hkept keys _ h)).1 rfl

theorem foldl_remove_primary {keys : List ConnectionCandidateKey} (h : r.primary = some key)
    (hkeys : key ∉ keys) :
    (keys.foldl (fun r k => (r.remove k).2) r).primary = some key := by
  induction keys generalizing r with
  | nil => exact h
  | cons k keys ih =>
    rw [List.mem_cons, not_or] at hkeys
    refine ih ?_ hkeys.2
    rw [CandidateRegistry.remove_primary, h, if_neg (by simpa using hkeys.1)]

theorem advances_primary (ha : s.Advances j loop s') (hmin : s.candidates.IsMinimum key)
    (hprimary : s.candidates.primary = some key) (hin : key ∈ s'.candidates.entries) :
    s'.candidates.primary = some key := by
  cases ha with
  | promoted deciding decides =>
    cases decides with
    | promoted minimum undecided chosen only returned =>
      rw [chosen, minimum_unique hmin minimum]
  | lost deciding decides =>
    cases decides with
    | lost held chosen smaller =>
      have hne := (CandidateRegistry.mem_remove.mp hin).1
      rw [CandidateRegistry.remove_primary, hprimary, if_neg (by simpa using hne)]
  | told | missing | waited | expired => exact hprimary
  | removed => exact foldl_remove_primary hprimary (mem_foldl_remove [loop.key] _ hin)

theorem step_primary (hs : s.step event = some s') (hmin : s.candidates.IsMinimum key)
    (hprimary : s.candidates.primary = some key) (hin : key ∈ s'.candidates.entries) :
    s'.candidates.primary = some key := by
  cases event with
  | tick | promote | report =>
    obtain rfl := Option.some.inj hs
    exact hprimary
  | register k value =>
    obtain rfl := Option.some.inj hs
    simp only [registerCandidate, CandidateRegistry.register]
    by_cases hk : s.candidates.entries.contains k
    · simpa only [hk, if_true] using hprimary
    · simpa only [hk, Bool.false_eq_true, if_false] using hprimary
  | remove keys =>
    obtain rfl := Option.some.inj hs
    exact foldl_remove_primary hprimary (mem_foldl_remove keys _ hin)
  | closeRemote =>
    obtain rfl := Option.some.inj hs
    simp [closeRemote, CandidateRegistry.takeAll] at hin
  | notifyWaiters =>
    simp only [PeerSlot.step] at hs
    split at hs
    · cases hs
    · obtain rfl := Option.some.inj hs
      exact hprimary
  | advance j =>
    obtain ⟨l, -, ha⟩ := Option.bind_eq_some_iff.mp hs
    exact advances_primary (advance_advances ha) hmin hprimary hin

def own (i : Nat) : PeerEvent α → Nat
  | .advance j => if j = i then 1 else 0
  | _ => 0

/-- The loop is on its way to its promotion, or there. -/
def Going (s : PeerSlot α) (key : ConnectionCandidateKey) (state : PromoteState) : Prop :=
  state.pending ∨ state = .promoted ∧ s.candidates.primary = some key

theorem advances_going (h : s.Due) (hlead : Leads loop s) (ha : s.Advances i loop s')
    (hgoing : s.Going loop.key loop.state) (hi : s.loops[i]? = some loop) :
    ∃ state, s'.loops[i]? = some { loop with state } ∧
      1 + state.distance ≤ loop.state.distance ∧ s'.Going loop.key state := by
  have hset : ∀ state, (s.loops.set i { loop with state })[i]? = some { loop with state } := by
    intro state
    rw [List.getElem?_set_self (List.getElem?_eq_some_iff.mp hi).1]
  cases ha with
  | promoted deciding decides =>
    cases decides with
    | promoted minimum undecided chosen only returned =>
      exact ⟨.promoted, hset _, by simp [deciding, PromoteState.distance], .inr ⟨rfl, chosen⟩⟩
  | lost deciding decides =>
    cases decides with
    | lost held chosen smaller => exact absurd (hlead.1.2 _ (h.held _ chosen)) smaller.not_ge
  | told deciding above => exact absurd hlead.1 above
  | missing deciding out => exact absurd hlead.1.1 out
  | waited pending going blocked closer => exact ⟨_, hset _, by omega, .inl going⟩
  | expired pending late => exact absurd late (by have := hlead.2; omega)
  | removed expired =>
    rcases hgoing with hgoing | ⟨hgoing, -⟩ <;> rw [expired] at hgoing <;> cases hgoing

theorem notified_going (h : s.Going key state) : s.Going key state.notified ∧
      state.notified.distance ≤ state.distance := by
  rcases h with h | ⟨rfl, h⟩
  · cases state with
    | deciding | told => exact ⟨.inl rfl, le_rfl⟩
    | waiting polled notified => exact ⟨.inl rfl, by cases polled <;> cases notified <;> decide⟩
    | expired | promoted | lost | missing | timedOut => cases h
  · exact ⟨.inr ⟨rfl, h⟩, le_rfl⟩

/-- While its candidate leads, a loop comes nearer to its promotion with each step of its
own and is set back by none of the others'. -/
theorem step_going (h : s.Due) (hs : s.step event = some s') (hlead : Leads loop s)
    (hlead' : Leads loop s') (hi : s.loops[i]? = some loop)
    (hgoing : s.Going loop.key loop.state) :
    ∃ state, s'.loops[i]? = some { loop with state } ∧
      own i event + state.distance ≤ loop.state.distance ∧ s'.Going loop.key state := by
  have hkeep : s'.Going loop.key loop.state := by
    refine hgoing.imp id fun ⟨hp, hprimary⟩ => ⟨hp, ?_⟩
    exact step_primary hs hlead.1 hprimary hlead'.1.1
  have hsame : s'.loops[i]? = some loop → own i event = 0 →
      ∃ state, s'.loops[i]? = some { loop with state } ∧
        own i event + state.distance ≤ loop.state.distance ∧ s'.Going loop.key state :=
    fun hl hown => ⟨loop.state, hl, by omega, hkeep⟩
  cases event with
  | tick | report | remove | closeRemote =>
    obtain rfl := Option.some.inj hs
    exact hsame hi rfl
  | register key value =>
    obtain rfl := Option.some.inj hs
    refine hsame ?_ rfl
    unfold registerCandidate
    split <;> exact hi
  | promote key deadline =>
    obtain rfl := Option.some.inj hs
    exact hsame (by rw [List.getElem?_append_left (List.getElem?_eq_some_iff.mp hi).1, hi]) rfl
  | notifyWaiters =>
    simp only [PeerSlot.step] at hs
    split at hs
    · cases hs
    · obtain rfl := Option.some.inj hs
      obtain ⟨hgo, hdistance⟩ := notified_going hkeep
      refine ⟨loop.state.notified, ?_, by simpa [own] using hdistance, hgo⟩
      simp [notifyWaiters, hi]
  | advance j =>
    obtain ⟨l, hl, ha⟩ := Option.bind_eq_some_iff.mp hs
    have ha := advance_advances ha
    by_cases hji : j = i
    · subst hji
      obtain rfl := Option.some.inj (hl.symm.trans hi)
      simpa only [own, if_true] using advances_going h hlead ha hgoing hi
    · refine hsame ?_ (by simp [own, hji])
      have hset : ∀ state, (s.loops.set j { l with state })[i]? = some loop := by
        intro state
        rw [List.getElem?_set_ne hji, hi]
      cases ha with
      | promoted | lost | told | missing | waited | expired | removed => exact hset _

theorem along_going {events : List (PeerEvent α)} (h : s.Due) (hlead : Leads loop s)
    (hrun : Along (Leads loop) s events s') (hi : s.loops[i]? = some loop)
    (hgoing : s.Going loop.key loop.state) :
    ∃ state, s'.loops[i]? = some { loop with state } ∧
      (events.map (own i)).sum + state.distance ≤ loop.state.distance ∧
      s'.Going loop.key state := by
  induction events generalizing s loop with
  | nil =>
    obtain rfl : s' = s := hrun
    exact ⟨loop.state, hi, by simp, hgoing⟩
  | cons event events ih =>
    obtain ⟨t, htimely, hstep, hlead', hrest⟩ := hrun
    obtain ⟨state, ht, hdistance, hgo⟩ := step_going h hstep hlead hlead' hi hgoing
    have hnext : Leads { loop with state } t := hlead'
    obtain ⟨state', hs', hdistance', hgo'⟩ := ih (h.step htimely hstep) hnext hrest ht hgo
    refine ⟨state', hs', ?_, hgo'⟩
    simp only [List.map_cons, List.sum_cons]
    simp only at hdistance'
    omega

end Steps

/-- A loop that is going and cannot step waits for a notification, which lets it step. -/
theorem blocked_of_idle {state : PromoteState} (h : state.pending)
    (hidle : ¬state.runnable) : state.blocked ∧ state.notified.runnable := by
  cases state with
  | deciding | told => exact absurd rfl hidle
  | waiting polled notified =>
    cases polled <;> cases notified <;> first | exact ⟨rfl, rfl⟩ | exact absurd rfl hidle
  | expired | promoted | lost | missing | timedOut => cases h

/-- In every timely run from an empty slot, a loop that is still going when its candidate
has become the minimum is promoted unless that changes or its deadline passes first: it
takes at most the few steps `distance` counts, and until then it can take one, or a
notification is about to be called after which it can. -/
theorem minimum_is_promoted {s s' : PeerSlot α} {before after : List (PeerEvent α)} {i : Nat}
    {loop : PromoteLoop} (hrun : Along (fun _ => True) {} before s)
    (hi : s.loops[i]? = some loop) (hpending : loop.state.pending) (hlead : Leads loop s)
    (hmore : Along (Leads loop) s after s') :
    ∃ state, s'.loops[i]? = some { loop with state } ∧
      (after.map (own i)).sum + state.distance ≤ loop.state.distance ∧
      (state = .promoted ∧ s'.candidates.primary = some loop.key ∨
        state.pending ∧ (state.runnable ∨ 0 < s'.unsent ∧ state.notified.runnable)) := by
  have hstart : ({} : PeerSlot α).Due := ⟨nofun, nofun⟩
  have hdue := hstart.along hrun
  obtain ⟨state, hs', hdistance, hgo⟩ := along_going hdue hlead hmore hi (.inl hpending)
  refine ⟨state, hs', hdistance, ?_⟩
  rcases hgo with hgo | hgo
  · refine .inr ⟨hgo, ?_⟩
    by_cases hr : state.runnable
    · exact .inl hr
    · obtain ⟨hblocked, hwakes⟩ := blocked_of_idle hgo hr
      have hmin := (hmore.last hlead).1
      exact .inr ⟨(hdue.along hmore).due _ (List.mem_of_getElem? hs') hblocked hmin, hwakes⟩
  · exact .inl hgo

/-- The candidate above waits for the one below, which fails. -/
def lowerKey : ConnectionCandidateKey := .new 1 1
def upperKey : ConnectionCandidateKey := .new 2 1

def toldToWait : List (PeerEvent Unit) :=
  [.register lowerKey (), .notifyWaiters, .register upperKey (), .notifyWaiters,
    .promote upperKey 2, .advance 0]

def waitingUpper : PromoteLoop := ⟨upperKey, 2, .waiting true false⟩

def lowerRemoved : PeerSlot Unit :=
  ((follow (fun _ => True) {} (toldToWait ++ [.advance 0, .advance 0, .remove [lowerKey]]))).get
    (by decide +kernel)

def upperWoken : PeerSlot Unit :=
  (follow (Leads waitingUpper) lowerRemoved [.notifyWaiters, .advance 0, .advance 0]).get
    (by decide +kernel)

theorem minimum_is_promoted_upper :
    ∃ state, upperWoken.loops[0]? = some { waitingUpper with state } ∧
      2 + state.distance ≤ 3 ∧
      (state = .promoted ∧ upperWoken.candidates.primary = some upperKey ∨
        state.pending ∧ (state.runnable ∨ 0 < upperWoken.unsent ∧ state.notified.runnable)) :=
  minimum_is_promoted (i := 0) (follow_along (Option.some_get _).symm)
    (by decide +kernel : lowerRemoved.loops[0]? = some waitingUpper) rfl
    (by decide +kernel : Leads waitingUpper lowerRemoved) (follow_along (Option.some_get _).symm)

/-! ## A removal in the gap -/

/-- What an observer sees of the slot's first loop: its state, whether its candidate is
registered alone, the notifications to come, and whether its deadline is ahead. -/
def observe (s : PeerSlot Unit) : Option (PromoteState × Bool × Nat × Bool) :=
  s.loops.head?.map fun loop =>
    (loop.state, s.candidates.entries.keys = [loop.key], s.unsent, s.now < loop.deadline)

/-- The lower candidate is removed and the notifier called before the upper one's loop made
its future: the loop waits, the minimum, with nothing to wake it, and gives up at its
deadline. -/
theorem removal_in_gap_is_missed :
    ((run {} (toldToWait ++ [.remove [lowerKey], .notifyWaiters, .advance 0, .advance 0])).bind
      observe = some (.waiting true false, true, 0, true)) ∧
    ((run {} (toldToWait ++ [.remove [lowerKey], .notifyWaiters, .advance 0, .advance 0,
      .tick, .tick, .advance 0, .advance 0])).bind
      observe = some (.timedOut, false, 1, false)) := by
  decide +kernel

end PeerSlot

end Voytty.Daemon
