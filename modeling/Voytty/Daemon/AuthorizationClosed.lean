import Voytty.Daemon.AuthorizationRuns

/-!
# When the registry fails closed

A writer that ends without publishing leaves the registry as it found it. That is
right when its command did nothing and never will; it is wrong when the command
was committed after all, or still runs later. `Settled` is the first case, and
runs of settled steps keep the registry in step with the row: an authorized entry
shows the durable generation whenever no writer is at work.
-/

namespace Voytty.Daemon.Authority

open Voytty.Lib Relation

/-- A writer that drops its permit unpublished leaves no command that can still run, and none that
committed while the registry shows the device authorized. -/
def Settled (s s' : Authority) : Prop :=
  ∀ (w : Writer) (i : Nat) (p : Pending), s.writer = some w → w.owns = some i → s'.writer = none →
    s'.calls[i]? = some p → ¬p.call.Live ∧ ∀ g, p.call.Committed g →
      ∀ entry, s.entry = some entry → entry.state.status ≠ .authorized

/-! ## The invariant -/

/-- An authorized entry shows the durable truth. -/
def Shown (s : Authority) (entry : AuthEntry) : Prop :=
  entry.state.status = .authorized → durable s.row = entry.state

/-- The row is what the entry shows, or what the writer's own command made of it. -/
def Follows (s : Authority) (entry : AuthEntry) (p : Pending) : Prop :=
  (∃ g, p.call.Committed g ∧ durable s.row = ⟨p.write.status, g⟩) ∨
    (∀ g, ¬p.call.Committed g) ∧ s.Shown entry

def Agrees (s : Authority) (entry : AuthEntry) : Option Writer → Prop
  | some (.revoking (some i)) | some (.authorizing _ (some i)) =>
    ∃ p, s.calls[i]? = some p ∧ s.Follows entry p
  -- the second look comes after the command: the actor runs one at a time
  | some (.rereading _ i read) => ∃ p, s.calls[i]? = some p ∧ s.Follows entry p ∧
      p.call ≠ .queued ∧ (read.gate = .started → ¬p.call.Live) ∧
      ∀ snapshot, read.Committed snapshot → durable s.row = snapshot
  | some (.publishing snapshot) => durable s.row = snapshot ∧ snapshot.status ≠ .none
  | some (.revoking none) | some (.authorizing _ none) | some (.waking _) | some .published
  | none => s.Shown entry

structure Closed (s : Authority) : Prop where
  orphans : ∀ (i : Nat) (p : Pending), s.calls[i]? = some p →
    (∀ w, s.writer = some w → w.owns ≠ some i) → ¬p.call.Live
  agrees : ∀ entry, s.entry = some entry → s.Agrees entry s.writer

/-- Commands move along without a change of the row. -/
structure Tame (s s' : Authority) : Prop where
  durable : durable s'.row = durable s.row
  forth : ∀ (i : Nat) (p : Pending), s.calls[i]? = some p → ∃ p', s'.calls[i]? = some p' ∧
    p'.write = p.write ∧ (∀ g, p'.call.Committed g ↔ p.call.Committed g) ∧
    (p'.call.Live → p.call.Live) ∧ (p'.call = .queued → p.call = .queued)
  back : ∀ (i : Nat) (p' : Pending), s'.calls[i]? = some p' → ∃ p, s.calls[i]? = some p

variable {s s' : Authority} {entry : AuthEntry} {p : Pending} {w : Writer} {i : Nat}
  {call : Call Nat} {result : Except DaemonError Nat} {prior : AuthorizationSnapshot}
  {read read' : Call AuthorizationSnapshot}

theorem Tame.of_eq (hc : s'.calls = s.calls) (hr : s'.row = s.row) :
    s.Tame s' where
  durable := by rw [hr]
  forth := fun i p hp => ⟨p, hc ▸ hp, rfl, fun _ => Iff.rfl, id, id⟩
  back := fun i p hp => ⟨p, hc ▸ hp⟩

theorem Tame.shown (h : s.Tame s') (hs : s.Shown entry) :
    s'.Shown entry := fun ha => h.durable.trans (hs ha)

theorem Tame.follows (h : s.Tame s') {p' : Pending} (hwrite : p'.write = p.write)
    (hc : ∀ g, p'.call.Committed g ↔ p.call.Committed g) (hf : s.Follows entry p) :
    s'.Follows entry p' := by
  rcases hf with ⟨g, hg, hd⟩ | ⟨hno, hs⟩
  · exact .inl ⟨g, (hc g).mpr hg, by rw [h.durable, hd, hwrite]⟩
  · exact .inr ⟨fun g hg => hno g ((hc g).mp hg), h.shown hs⟩

theorem Tame.agrees (h : s.Tame s') {w : Option Writer} (hw : s.Agrees entry w) :
    s'.Agrees entry w := by
  have hcall : ∀ {i : Nat}, (∃ p, s.calls[i]? = some p ∧ s.Follows entry p) →
      ∃ p, s'.calls[i]? = some p ∧ s'.Follows entry p := by
    rintro i ⟨p, hp, hf⟩
    obtain ⟨p', hp', hwrite, hc, -⟩ := h.forth i p hp
    exact ⟨p', hp', h.follows hwrite hc hf⟩
  match w, hw with
  | some (.revoking (some i)), hw => exact hcall hw
  | some (.authorizing _ (some i)), hw => exact hcall hw
  | some (.rereading _ i read), ⟨p, hp, hf, hq, hstarted, hread⟩ =>
    obtain ⟨p', hp', hwrite, hc, hlive, hqueued⟩ := h.forth i p hp
    exact ⟨p', hp', h.follows hwrite hc hf, fun he => hq (hqueued he),
      fun hs hl => hstarted hs (hlive hl), fun snapshot hr => h.durable.trans (hread snapshot hr)⟩
  | some (.publishing snapshot), hw => exact ⟨h.durable.trans hw.1, hw.2⟩
  | some (.revoking none), hw | some (.authorizing _ none), hw | some (.waking _), hw
  | some .published, hw | none, hw => exact h.shown hw

theorem tame_closed (hs : s.Closed) (h : s.Tame s') (hentry : s'.entry = s.entry)
    (hwriter : s'.writer = s.writer) : s'.Closed where
  orphans := fun i p' hp' hno hl => by
    obtain ⟨p, hp⟩ := h.back i p' hp'
    obtain ⟨p'', hp'', -, -, hlive, -⟩ := h.forth i p hp
    obtain rfl := Option.some.inj (hp'.symm.trans hp'')
    exact hs.orphans i p hp (hwriter ▸ hno) (hlive hl)
  agrees := fun entry he => by
    rw [hwriter]
    exact h.agrees (hs.agrees entry (hentry ▸ he))

theorem setCall_tame (get : s.calls[i]? = some p) (hc : ∀ g, call.Committed g ↔ p.call.Committed g)
    (hl : call.Live → p.call.Live) (hq : call = .queued → p.call = .queued) :
    s.Tame (s.setCall i p call) where
  durable := rfl
  forth := fun j q hj => by
    by_cases hij : i = j
    · subst hij
      obtain rfl := Option.some.inj (get.symm.trans hj)
      refine ⟨{ p with call }, ?_, rfl, hc, hl, hq⟩
      simp [setCall, (List.getElem?_eq_some_iff.mp get).1]
    · refine ⟨q, ?_, rfl, fun _ => Iff.rfl, id, id⟩
      simp only [setCall, List.getElem?_set, if_neg hij, hj]
  back := fun j q hj => by
    rcases setCall_get get hj with ⟨rfl, -⟩ | ⟨-, hj⟩
    · exact ⟨p, get⟩
    · exact ⟨q, hj⟩

/-! ## Steps of the store -/

theorem Closed.owner (hs : s.Closed) (get : s.calls[i]? = some p) (hl : p.call.Live) :
    ∃ w, s.writer = some w ∧ w.owns = some i := by
  by_contra hno
  exact hs.orphans i p get (fun w hw ho => hno ⟨w, hw, ho⟩) hl

theorem decide_closed (hrow : RowOk s.row) (hs : s.Closed) (get : s.calls[i]? = some p)
    (running : p.call = .running) (sql : Sqlite) :
    (s.decide i p sql).Closed := by
  have hlive : p.call.Live := running ▸ trivial
  obtain ⟨w, hw, howns⟩ := hs.owner get hlive
  unfold Authority.decide
  split
  · rename_i g row hrun
    obtain ⟨-, hd, -⟩ := StoreWrite.run_ok hrow hrun
    have hget : (s.calls.set i ⟨p.write, .ran (.ok g) .pending⟩)[i]? =
        some ⟨p.write, .ran (.ok g) .pending⟩ := by
      simp [(List.getElem?_eq_some_iff.mp get).1]
    have hfollows : ∀ entry, Follows { s.setCall i p (.ran (.ok g) .pending) with row } entry
        ⟨p.write, .ran (.ok g) .pending⟩ := fun entry => .inl ⟨g, ⟨_, rfl⟩, hd⟩
    refine ⟨fun j q hj hno => ?_, fun entry he => ?_⟩
    · rcases setCall_get get hj with ⟨rfl, -⟩ | ⟨-, hj⟩
      · exact absurd howns (hno w hw)
      · exact hs.orphans j q hj hno
    · have hag := hs.agrees entry he
      rw [hw] at hag
      show Agrees _ entry s.writer
      rw [hw]
      cases w with
      | revoking pending | authorizing _ pending =>
        obtain rfl : pending = some i := howns
        exact ⟨_, hget, hfollows entry⟩
      | rereading prior j read =>
        obtain rfl : j = i := Option.some.inj howns
        -- the second look has not begun
        obtain ⟨q, hq, -, -, hstarted, -⟩ := hag
        obtain rfl := Option.some.inj (get.symm.trans hq)
        exact ⟨_, hget, hfollows entry, nofun, fun _ => id,
          fun snapshot hr => absurd hlive (hstarted hr.not_live.2)⟩
      | publishing | waking | published => cases howns
  · refine tame_closed hs (setCall_tame get (fun g => ?_) (fun h => h.elim) nofun) rfl rfl
    simp [Call.Committed, running]

/-! ## Steps of a writer -/

theorem writer_closed (hs : s.Closed) {next : Option Writer}
    (horphan : ∀ w i, s.writer = some w → w.owns = some i → (∀ w', next = some w' → w'.owns ≠ some i) → ∀ p, s.calls[i]? = some p → ¬p.call.Live)
    (hagrees : ∀ entry, s.entry = some entry → s.Agrees entry next) :
    ({ s with writer := next } : Authority).Closed where
  orphans := fun i p hp hno => by
    by_cases howner : ∃ w, s.writer = some w ∧ w.owns = some i
    · obtain ⟨w, hw, ho⟩ := howner
      exact horphan w i hw ho hno p hp
    · exact hs.orphans i p hp fun w hw ho => howner ⟨w, hw, ho⟩
  agrees := fun entry he => (Tame.of_eq rfl rfl).agrees (hagrees entry he)

theorem idle_closed (hs : s.Closed) {w : Option Writer} (hw : s.writer = w)
    (howns : ∀ w', w = some w' → w'.owns = none) {entry : Option AuthEntry} {next : Option Writer}
    (hagrees : ∀ e, entry = some e → s.Agrees e next) :
    ({ s with entry, writer := next } : Authority).Closed where
  orphans := fun i p hp _ => hs.orphans i p hp fun w' hw' ho => by
    rw [howns w' (hw.symm.trans hw')] at ho
    cases ho
  agrees := fun e he => (Tame.of_eq rfl rfl).agrees (hagrees e he)

theorem drop_closed (hs : s.Closed) (hw : s.writer = some w) (howns : w.owns = some i)
    (get : s.calls[i]? = some p) (hlive : ¬p.call.Live)
    (hfollows : ∀ entry, s.entry = some entry → s.Follows entry p)
    (hcommitted : ∀ g, p.call.Committed g → ∀ entry, s.entry = some entry → entry.state.status ≠ .authorized) :
    ({ s with writer := none } : Authority).Closed := by
  refine writer_closed hs (fun w' j hw' ho _ q hq => ?_) fun entry he => ?_
  · obtain rfl := Option.some.inj (hw.symm.trans hw')
    obtain rfl := Option.some.inj (howns.symm.trans ho)
    obtain rfl := Option.some.inj (get.symm.trans hq)
    exact hlive
  · rcases hfollows entry he with ⟨g, hg, -⟩ | ⟨-, hs⟩
    · exact fun ha => absurd ha (hcommitted g hg entry he)
    · exact hs

theorem learn_closed (hs : s.Closed) (hw : s.writer = some w) (howns : w.owns = some i)
    (get : s.calls[i]? = some p) (hlive : ¬p.call.Live) {snapshot : AuthorizationSnapshot}
    (hd : durable s.row = snapshot) (hstatus : snapshot.status ≠ .none) :
    ({ s with writer := some (.publishing snapshot) } : Authority).Closed := by
  refine writer_closed hs (fun w' j hw' ho _ q hq => ?_) fun entry he => ⟨hd, hstatus⟩
  obtain rfl := Option.some.inj (hw.symm.trans hw')
  obtain rfl := Option.some.inj (howns.symm.trans ho)
  obtain rfl := Option.some.inj (get.symm.trans hq)
  exact hlive

theorem Agrees.owned (h : s.Agrees entry (some w)) (howns : w.owns = some i) :
    ∃ p, s.calls[i]? = some p ∧ s.Follows entry p := by
  cases w with
  | revoking pending =>
    obtain rfl : pending = some i := howns
    exact h
  | authorizing prior pending =>
    obtain rfl : pending = some i := howns
    exact h
  | rereading prior j read =>
    obtain rfl : j = i := Option.some.inj howns
    obtain ⟨p, hp, hf, -⟩ := h
    exact ⟨p, hp, hf⟩
  | publishing | waking | published => cases howns

theorem Agrees.follows (h : s.Agrees entry (some w)) (howns : w.owns = some i)
    (get : s.calls[i]? = some p) : s.Follows entry p := by
  obtain ⟨q, hq, hf⟩ := h.owned howns
  exact Option.some.inj (get.symm.trans hq) ▸ hf

theorem returns_closed (hs : s.Closed) (hw : s.writer = some w) (howns : w.owns = some i)
    (get : s.calls[i]? = some p) (returns : p.call.Returns result call) :
    (s.setCall i p call).Closed ∧ (s.setCall i p call).calls[i]? = some { p with call } ∧
      ∀ entry, s.entry = some entry → (s.setCall i p call).Follows entry { p with call } := by
  have hs₁ : (s.setCall i p call).Closed := tame_closed hs (setCall_tame get returns.committed
    returns.live fun hq => absurd hq returns.not_queued) rfl rfl
  have get₁ : (s.setCall i p call).calls[i]? = some { p with call } := by
    simp [setCall, (List.getElem?_eq_some_iff.mp get).1]
  refine ⟨hs₁, get₁, fun entry he => ?_⟩
  have hagrees : (s.setCall i p call).Agrees entry (some w) := hw ▸ hs₁.agrees entry he
  exact hagrees.follows howns get₁

theorem Follows.committed (h : s.Follows entry p) {g : Nat} (hg : p.call.Committed g) :
    durable s.row = ⟨p.write.status, g⟩ := by
  rcases h with ⟨g', hg', hd⟩ | ⟨hno, -⟩
  · rw [hd, hg'.unique hg]
  · exact absurd hg (hno g)

theorem revokeOutcome_closed (hinv : s.Inv) (hs : s.Closed)
    (hw : s.writer = some (.revoking (some i))) (get : s.calls[i]? = some p)
    (returns : p.call.Returns result call)
    (settled : s.Settled { s.setCall i p call with writer := afterRevoke result }) :
    ({ s.setCall i p call with writer := afterRevoke result } : Authority).Closed := by
  obtain ⟨hs₁, get₁, hfollows⟩ := returns_closed hs hw rfl get returns
  obtain ⟨entry, he, hk⟩ := hinv.writer _ hw
  cases result with
  | ok g =>
    obtain ⟨rfl, hg⟩ := returns.ok
    have hd := (hfollows entry he).committed hg
    rw [(hk p get).1] at hd
    exact learn_closed hs₁ hw rfl get₁ hg.not_live.1 hd nofun
  | error error =>
    obtain ⟨hlive, hc⟩ := settled _ i _ hw rfl rfl get₁
    exact drop_closed hs₁ hw rfl get₁ hlive hfollows hc

theorem authorizeOutcome_closed (hinv : s.Inv) (hs : s.Closed)
    (hw : s.writer = some (.authorizing prior (some i))) (get : s.calls[i]? = some p)
    (returns : p.call.Returns result call)
    (settled : s.Settled { s.setCall i p call with writer := afterAuthorize prior i result }) :
    ({ s.setCall i p call with writer := afterAuthorize prior i result } : Authority).Closed := by
  obtain ⟨hs₁, get₁, hfollows⟩ := returns_closed hs hw rfl get returns
  obtain ⟨entry, he, -, hk⟩ := hinv.writer _ hw
  cases result with
  | ok g =>
    obtain ⟨rfl, hg⟩ := returns.ok
    have hd := (hfollows entry he).committed hg
    rw [(hk p get).1] at hd
    exact learn_closed hs₁ hw rfl get₁ hg.not_live.1 hd nofun
  | error error =>
    unfold afterAuthorize authorizeVerdict at settled ⊢
    by_cases hkind : error.kind = .operationOutcomeUnknown
    · simp only [hkind, if_true]
      refine writer_closed hs₁ (fun w' j hw' ho hno => ?_) fun entry he => ?_
      · obtain rfl := Option.some.inj (hw.symm.trans hw')
        exact absurd ho (hno (.rereading prior i .queued) rfl)
      · exact ⟨_, get₁, hfollows entry he, returns.not_queued, nofun,
          fun snapshot hc => by simp [Call.Committed] at hc⟩
    · simp only [hkind, if_false] at settled ⊢
      obtain ⟨hlive, hc⟩ := settled _ i _ hw rfl rfl get₁
      exact drop_closed hs₁ hw rfl get₁ hlive hfollows hc

theorem reread_closed (hs : s.Closed) (hw : s.writer = some (.rereading prior i read))
    (hstarted : ∀ p, s.calls[i]? = some p → p.call ≠ .queued → read'.gate = .started → read.gate = .started ∨ ¬p.call.Live)
    (hread : ∀ snapshot, read'.Committed snapshot → read.Committed snapshot ∨ snapshot = durable s.row) :
    ({ s with writer := some (.rereading prior i read') } : Authority).Closed := by
  refine writer_closed hs (fun w' j hw' ho hno => ?_) fun entry he => ?_
  · obtain rfl := Option.some.inj (hw.symm.trans hw')
    exact absurd ho (hno (.rereading prior i read') rfl)
  · have hag := hs.agrees entry he
    rw [hw] at hag
    obtain ⟨p, hp, hf, hq, hold, hsnap⟩ := hag
    refine ⟨p, hp, hf, hq, fun hg => ?_, fun snapshot hc => ?_⟩
    · exact (hstarted p hp hq hg).elim hold id
    · exact (hread snapshot hc).elim (hsnap snapshot) Eq.symm

theorem readMove_closed (hs : s.Closed) (hw : s.writer = some (.rereading prior i read))
    (moves : read.Moves read') (idle : read' = .running → ¬s.Busy) :
    ({ s with writer := some (.rereading prior i read') } : Authority).Closed := by
  refine reread_closed hs hw (fun p hp hq hg => ?_) fun snapshot hc =>
    .inl ((moves.committed snapshot).mp hc)
  cases moves with
  | refuse | discard => cases hg
  | abort | reply | lose => exact .inl rfl
  | meet late =>
    cases late with
    | true => cases hg
    | false =>
      -- the actor is free, so the command is not running
      right
      have hnot : p.call ≠ .running := fun hr => idle rfl (.inl ⟨i, p, hp, hr⟩)
      cases hcall : p.call with
      | queued => exact absurd hcall hq
      | running => exact absurd hcall hnot
      | refused | discarded | expired | aborted | ran => exact id

theorem readOutcome_closed (hs : s.Closed) {result : Except DaemonError AuthorizationSnapshot}
    (he : s.entry = some entry) (hw : s.writer = some (.rereading prior i read))
    (returns : read.Returns result read')
    (settled : s.Settled { s with writer := afterReread prior result }) :
    ({ s with writer := afterReread prior result } : Authority).Closed := by
  have hagrees : ∀ entry, s.entry = some entry → s.Agrees entry (some (.rereading prior i read)) :=
    fun entry he => hw ▸ hs.agrees entry he
  obtain ⟨p, get, -, -, hstarted, hsnap⟩ := hagrees entry he
  unfold afterReread at settled ⊢
  cases hv : rereadVerdict prior result with
  | some g =>
    obtain ⟨rfl, -⟩ := rereadVerdict_some hv
    have hc := returns.ok.2
    exact learn_closed hs hw rfl get (hstarted hc.not_live.2) (hsnap _ hc) nofun
  | none =>
    rw [hv] at settled
    obtain ⟨hlive, hc⟩ := settled _ i p hw rfl rfl get
    exact drop_closed hs hw rfl get hlive (fun entry he => (hagrees entry he).follows rfl get) hc

theorem cancel_closed (hs : s.Closed) (he : s.entry = some entry) (hw : s.writer = some w)
    (howns : w.owns = some i) (settled : s.Settled { s with writer := none }) :
    ({ s with writer := none } : Authority).Closed := by
  have hagrees : ∀ entry, s.entry = some entry → s.Agrees entry (some w) :=
    fun entry he => hw ▸ hs.agrees entry he
  obtain ⟨p, get, -⟩ := (hagrees entry he).owned howns
  obtain ⟨hlive, hc⟩ := settled _ i p hw howns rfl get
  exact drop_closed hs hw howns get hlive (fun entry he => (hagrees entry he).follows howns get) hc

theorem ask_closed (hs : s.Closed) (hw : s.writer = some w) (howns : w.owns = none)
    (hshown : ∀ entry, s.Agrees entry (some w) → s.Shown entry) {write : StoreWrite} {next : Writer}
    (hnext : next.owns = some s.calls.length)
    (hagrees : ∀ (t : Authority) entry, (∃ p, t.calls[s.calls.length]? = some p ∧ t.Follows entry p) → t.Agrees entry (some next)) :
    ({ s with writer := some next, calls := s.calls ++ [⟨write, .queued⟩] } : Authority).Closed where
  orphans := fun i p hp hno => by
    rcases Nat.lt_trichotomy i s.calls.length with hi | rfl | hi
    · rw [List.getElem?_append_left hi] at hp
      refine hs.orphans i p hp fun w' hw' ho => ?_
      obtain rfl := Option.some.inj (hw.symm.trans hw')
      rw [howns] at ho
      cases ho
    · exact absurd hnext (hno next rfl)
    · rw [List.getElem?_eq_none (by simp; omega)] at hp
      cases hp
  agrees := fun entry he => by
    refine hagrees _ entry ⟨⟨write, .queued⟩, by simp, .inr ⟨by simp [Call.Committed], ?_⟩⟩
    exact hshown entry (hw ▸ hs.agrees entry he)

theorem durable_valid {row : Option AuthorizationRow} (hrow : RowOk row)
    (hs : (durable row).status ≠ .none) : validateSnapshot (durable row) = .ok () := by
  cases row with
  | none => exact absurd rfl hs
  | some r => exact validateSnapshot_ok hs (durable_positive hrow)

theorem step_closed (hinv : s.Inv) (hs : s.Closed) (step : Step s s') (settled : s.Settled s') :
    s'.Closed := by
  have hcond : ∀ w, s.writer = some w → ∃ entry, s.entry = some entry := fun w hw =>
    let ⟨entry, he, _⟩ := hinv.writer w hw
    ⟨entry, he⟩
  have hagrees : ∀ {w entry}, s.writer = some w → s.entry = some entry →
      s.Agrees entry (some w) := fun hw he => hw ▸ hs.agrees _ he
  have hnone : ∀ {w : Writer}, w.owns = none → ∀ w', some w = some w' → w'.owns = none :=
    fun h _ hw => Option.some.inj hw ▸ h
  cases step with
  | accept | begin | finish => exact tame_closed hs (.of_eq rfl rfl) rfl rfl
  | touch htouch =>
    exact tame_closed hs ⟨(setLastSeen_ok hinv.row htouch).2,
      fun i p hp => ⟨p, hp, rfl, fun _ => Iff.rfl, id, id⟩, fun i p hp => ⟨p, hp⟩⟩ rfl rfl
  | insert =>
    cases hw : s.writer with
    | some w =>
      obtain ⟨entry, he⟩ := hcond w hw
      rw [he]
      exact tame_closed hs (.of_eq rfl rfl) he.symm hw.symm
    | none =>
      have hclosed : ({ s with entry := some (entryOrInsert s.entry), writer := none } :
          Authority).Closed := by
        refine idle_closed hs hw (by simp) fun e he => ?_
        cases hentry : s.entry with
        | some entry =>
          obtain rfl : entry = e := by simpa [entryOrInsert, hentry] using he
          exact hw ▸ hs.agrees entry hentry
        | none =>
          obtain rfl : AuthEntry.new .absent = e := by simpa [entryOrInsert, hentry] using he
          rintro ⟨⟩
      exact hw ▸ hclosed
  | lockRevoke free | lockAuthorize free =>
    exact idle_closed hs free.1 (by simp) fun e he => (free.1 ▸ hs.agrees e he : s.Agrees e none)
  | askRevoke hw | askAuthorize hw =>
    exact ask_closed hs hw rfl (fun _ h => h) rfl fun _ _ h => h
  | giveUp hw | unlock hw => exact idle_closed hs hw (hnone rfl) fun e he => hagrees hw he
  | move get moves idle =>
    exact tame_closed hs (setCall_tame get moves.committed moves.live
      fun hq => absurd hq moves.not_queued) rfl rfl
  | decide get running sql => exact decide_closed hinv.row hs get running sql
  | revokeOutcome hw get returns => exact revokeOutcome_closed hinv hs hw get returns settled
  | authorizeOutcome hw get returns => exact authorizeOutcome_closed hinv hs hw get returns settled
  | readMove hw moves idle => exact readMove_closed hs hw moves idle
  | readDecide hw sql =>
    refine reread_closed hs hw (fun _ _ _ _ => .inl rfl) fun snapshot hc => .inr ?_
    obtain ⟨delivery, hc⟩ := hc
    exact authorizationSnapshot_ok hinv.row (Call.ran.inj hc).1
  | readOutcome hw returns =>
    obtain ⟨entry, he⟩ := hcond _ hw
    exact readOutcome_closed hs he hw returns settled
  | publish hw get valid =>
    refine idle_closed hs hw (hnone rfl) fun e he => ?_
    obtain rfl := Option.some.inj he
    exact fun _ => (hagrees hw get).1
  | refuse hw invalid =>
    obtain ⟨entry, he⟩ := hcond _ hw
    obtain ⟨hd, hstatus⟩ := hagrees hw he
    rw [← hd, durable_valid hinv.row (hd ▸ hstatus)] at invalid
    cases invalid
  | wake hw get =>
    refine idle_closed hs hw (hnone rfl) fun e he => ?_
    obtain rfl := Option.some.inj he
    have hshown := hagrees hw get
    exact hshown
  | cancel hw waits =>
    obtain ⟨entry, he⟩ := hcond _ hw
    exact cancel_closed hs he hw waits settled

theorem boot_closed {row : Option AuthorizationRow} (h : boot row = .ok s) :
    s.Closed := by
  obtain ⟨-, rfl⟩ := boot_row h
  refine ⟨by simp, fun entry he _ => ?_⟩
  obtain ⟨r, rfl, rfl⟩ := Option.map_eq_some_iff.mp he
  rfl

/-! ## The registry and the row -/

/-- In a run of settled steps, an entry that shows the device authorized while no writer holds the
lock shows the durable generation. -/
theorem registry_fails_closed {row : Option AuthorizationRow} {s₀ s : Authority}
    (hboot : boot row = .ok s₀) (h : ReflTransGen (fun s s' => Step s s' ∧ s.Settled s') s₀ s)
    (hfree : s.writer = none) (entry : AuthEntry) (he : s.entry = some entry) (g : Nat)
    (hg : entry.state = ⟨.authorized, g⟩ ∨ entry.watch = ⟨.authorized, g⟩) :
    durable s.row = ⟨.authorized, g⟩ := by
  have hpreserved : Preserved (fun s s' => Step s s' ∧ s.Settled s') fun s => s.Inv ∧ s.Closed :=
    fun _ _ step hs => ⟨step_inv hs.1 step.1, step_closed hs.1 hs.2 step.1 step.2⟩
  obtain ⟨hinv, hclosed⟩ := hpreserved.run h ⟨boot_inv hboot, boot_closed hboot⟩
  have hstate : entry.state = ⟨.authorized, g⟩ := by
    rw [hinv.woken entry he (by simp [hfree]), or_self] at hg
    exact hg
  have hshown : s.Agrees entry none := hfree ▸ hclosed.agrees entry he
  rw [← hstate]
  exact hshown (by rw [hstate])

/-- A revocation that expires before the store starts it leaves the device authorized in both. -/
theorem registry_fails_closed_sample :
    ∃ s, ReflTransGen (fun s s' => Step s s' ∧ s.Settled s') sampleStart s ∧ s.writer = none ∧
      s.calls ≠ [] ∧ durable s.row = ⟨.authorized, 1⟩ := by
  have meet : Call.Moves (.queued : Call Nat) .expired := .meet true
  have expire : Step (sample sampleRow (some (.revoking (some 0))) [⟨.revoke 9, .queued⟩])
      (sample sampleRow (some (.revoking (some 0))) [⟨.revoke 9, .expired⟩]) :=
    .move (i := 0) (p := ⟨.revoke 9, .queued⟩) rfl meet (by simp)
  have returns : Call.Returns (.expired : Call Nat) (.error expiredBeforeStarting) .expired :=
    .waited .expired
  have ends : Step (sample sampleRow (some (.revoking (some 0))) [⟨.revoke 9, .expired⟩])
      (sample sampleRow none [⟨.revoke 9, .expired⟩]) :=
    .revokeOutcome (i := 0) (p := ⟨.revoke 9, .expired⟩) rfl rfl returns
  have settled : Settled (sample sampleRow (some (.revoking (some 0))) [⟨.revoke 9, .expired⟩])
      (sample sampleRow none [⟨.revoke 9, .expired⟩]) := by
    intro w i p hw howns _ hp
    obtain rfl := Option.some.inj hw
    obtain rfl := Option.some.inj howns
    obtain rfl := Option.some.inj hp
    exact ⟨id, by simp [Call.Committed]⟩
  have hkeep : ∀ {s s' : Authority}, s.writer = none ∨ s'.writer ≠ none → s.Settled s' :=
    fun h _ _ _ hw _ hn => by rcases h with h | h <;> simp_all
  have run : ReflTransGen (fun s s' => Step s s' ∧ s.Settled s') sampleStart
      (sample sampleRow none [⟨.revoke 9, .expired⟩]) :=
    .tail (.tail (ReflTransGen.mono (fun _ _ h => ⟨h.1, hkeep h.2⟩) _ _ sample_asked)
      ⟨expire, hkeep (.inr (by simp [sample]))⟩) ⟨ends, settled⟩
  exact ⟨_, run, rfl, by simp [sample], registry_fails_closed boot_sample run rfl _ rfl 1 (.inl rfl)⟩

/-- The reply of a committed revocation comes after its deadline: the registry keeps the device
authorized while the row is revoked. -/
theorem late_revocation_stays_authorized : ∃ s₀ s, boot (some sampleRow) = .ok s₀ ∧
    ReflTransGen Step s₀ s ∧ s.writer = none ∧
    s.entry = some (AuthEntry.new ⟨.authorized, 1⟩) ∧ durable s.row = ⟨.revoked, 2⟩ := by
  have returns : Call.Returns (.ran (.ok 2) .pending : Call Nat) _ (.ran (.ok 2) .pending) :=
    .waited (.timeout nofun)
  have ends : Step
      (sample sampleTombstone (some (.revoking (some 0))) [⟨.revoke 9, .ran (.ok 2) .pending⟩])
      (sample sampleTombstone none [⟨.revoke 9, .ran (.ok 2) .pending⟩]) :=
    .revokeOutcome (i := 0) (p := ⟨.revoke 9, .ran (.ok 2) .pending⟩) rfl rfl returns
  exact ⟨_, _, boot_sample, sample_committed.tail ends, rfl, rfl, rfl⟩

end Voytty.Daemon.Authority
