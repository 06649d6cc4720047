import Voytty.Daemon.Authorization
import Voytty.Lib.Transition

/-!
# Revocation is a barrier

Every row change moves the generation up, so snapshots of one device are ordered
and one generation has one status. `Authority.Inv` says that what is published,
what connections were accepted under and what a writer has learnt are all of that
order: published before learnt, learnt before durable.
-/

namespace Voytty.Daemon.Authority

open Voytty.Lib Relation

/-! ## The invariant -/

/-- A snapshot a writer may publish: not older than the published one, and true once. -/
def Fresh (s : Authority) (entry : AuthEntry) (snapshot : AuthorizationSnapshot) : Prop :=
  entry.state.Precedes snapshot ∧ snapshot.Precedes (durable s.row)

def Knows (s : Authority) (entry : AuthEntry) : Writer → Prop
  | .revoking none | .published => True
  | .authorizing prior none => prior = entry.state
  | .revoking (some i) => ∀ p, s.calls[i]? = some p →
      p.write.status = .revoked ∧ ∀ g, p.call.Committed g → s.Fresh entry ⟨.revoked, g⟩
  | .authorizing prior (some i) => prior = entry.state ∧ ∀ p, s.calls[i]? = some p →
      p.write.status = .authorized ∧ ∀ g, p.call.Committed g → s.Fresh entry ⟨.authorized, g⟩
  | .rereading prior _ read => prior = entry.state ∧
      ∀ snapshot, read.Committed snapshot → s.Fresh entry snapshot
  | .publishing snapshot => s.Fresh entry snapshot
  | .waking snapshot => entry.state = snapshot

structure Inv (s : Authority) : Prop where
  row : RowOk s.row
  state : ∀ entry, s.entry = some entry → entry.state.Precedes (durable s.row)
  watch : ∀ entry, s.entry = some entry → entry.watch.Precedes entry.state
  woken : ∀ entry, s.entry = some entry → (∀ snapshot, s.writer ≠ some (.waking snapshot)) →
    entry.watch = entry.state
  accepted : ∀ g ∈ s.accepted, ∃ entry, s.entry = some entry ∧
    AuthorizationSnapshot.Precedes ⟨.authorized, g⟩ entry.state
  effects : ∀ g ∈ s.effects, g ∈ s.accepted ∧ s.writer = none ∧
    ∃ entry, s.entry = some entry ∧ entry.state = ⟨.authorized, g⟩
  writer : ∀ w, s.writer = some w → ∃ entry, s.entry = some entry ∧ s.Knows entry w

variable {s s' : Authority} {w : Writer} {snapshot prior : AuthorizationSnapshot}
  {row : Option AuthorizationRow} {i : Nat} {p : Pending} {call : Call Nat} {entry : AuthEntry}
  {result : Except DaemonError Nat}

theorem Inv.no_effects (h : s.Inv) (hw : s.writer = some w) :
    s.effects = [] := by
  refine List.eq_nil_iff_forall_not_mem.mpr fun g hg => ?_
  have := (h.effects g hg).2.1
  rw [hw] at this
  cases this

theorem validateSnapshot_ok (hs : snapshot.status ≠ .none) (hg : 0 < snapshot.generation) :
    validateSnapshot snapshot = .ok () := by
  obtain ⟨status, generation⟩ := snapshot
  cases status with
  | none => exact absurd rfl hs
  | authorized | revoked => simp [validateSnapshot, Nat.pos_iff_ne_zero.mp hg]

theorem boot_row (h : boot row = .ok s) :
    RowOk row ∧ s = { row, entry := row.map fun r => AuthEntry.new (durable (some r)) } := by
  cases row with
  | none => exact ⟨nofun, (Except.ok.inj h).symm⟩
  | some r =>
    simp only [boot, preload, bind_ok] at h
    obtain ⟨snapshot, hp, entry, ⟨-, -, he⟩, hs⟩ := h
    have hp := projectAuthorization_ok.mp hp
    obtain rfl := Except.ok.inj he
    obtain rfl := Except.ok.inj hs
    refine ⟨fun r' hr => ?_, by simp [hp.durable_eq]⟩
    obtain rfl := Option.some.inj hr
    exact ⟨snapshot, hp⟩

theorem boot_inv (h : boot row = .ok s) :
    s.Inv := by
  obtain ⟨hrow, rfl⟩ := boot_row h
  have hentry : ∀ entry, (row.map fun r => AuthEntry.new (durable (some r))) = some entry →
      entry.state = durable row ∧ entry.watch = entry.state := by
    intro entry he
    obtain ⟨r, rfl, rfl⟩ := Option.map_eq_some_iff.mp he
    exact ⟨rfl, rfl⟩
  exact
    { row := hrow
      state := fun entry he => (hentry entry he).1 ▸ .refl _
      watch := fun entry he => (hentry entry he).2 ▸ .refl _
      woken := fun entry he _ => (hentry entry he).2
      accepted := by simp
      effects := by simp
      writer := by simp }

/-! ## Steps of the store -/

/-- The store moves commands along and may change the row. -/
structure StoreStep (s s' : Authority) : Prop where
  entry : s'.entry = s.entry
  writer : s'.writer = s.writer
  effects : s'.effects = s.effects
  accepted : s'.accepted = s.accepted
  row : RowOk s'.row
  grows : (durable s.row).Precedes (durable s'.row)
  calls : ∀ (i : Nat) (p' : Pending), s'.calls[i]? = some p' →
    ∃ p, s.calls[i]? = some p ∧ p'.write = p.write ∧ ∀ g, p'.call.Committed g →
      p.call.Committed g ∨ durable s'.row = ⟨p.write.status, g⟩

theorem setCall_get {j : Nat} {p' : Pending} (get : s.calls[i]? = some p)
    (h : (s.setCall i p call).calls[j]? = some p') :
    i = j ∧ p' = { p with call } ∨ i ≠ j ∧ s.calls[j]? = some p' := by
  unfold setCall at h
  rw [List.getElem?_set] at h
  have hi := (List.getElem?_eq_some_iff.mp get).1
  by_cases hij : i = j
  · subst hij
    rw [if_pos rfl, if_pos hi] at h
    exact .inl ⟨rfl, (Option.some.inj h).symm⟩
  · rw [if_neg hij] at h
    exact .inr ⟨hij, h⟩

theorem setCall_store (hrow : RowOk s.row) (get : s.calls[i]? = some p)
    (hc : ∀ g, call.Committed g → p.call.Committed g) : s.StoreStep (s.setCall i p call) where
  entry := rfl
  writer := rfl
  effects := rfl
  accepted := rfl
  row := hrow
  grows := .refl _
  calls := fun j p' h => by
    rcases setCall_get get h with ⟨rfl, rfl⟩ | ⟨-, h⟩
    · exact ⟨p, get, rfl, fun g hg => .inl (hc g hg)⟩
    · exact ⟨p', h, rfl, fun g hg => .inl hg⟩

theorem decide_store (hrow : RowOk s.row) (get : s.calls[i]? = some p) (sql : Sqlite) :
    s.StoreStep (s.decide i p sql) := by
  unfold Authority.decide
  split
  · rename_i generation row hrun
    obtain ⟨hok, hd, hgrows⟩ := StoreWrite.run_ok hrow hrun
    refine ⟨rfl, rfl, rfl, rfl, hok, hgrows, fun j p' h => ?_⟩
    rcases setCall_get get h with ⟨rfl, rfl⟩ | ⟨-, h⟩
    · refine ⟨p, get, rfl, fun g hg => .inr ?_⟩
      obtain ⟨delivery, hg⟩ := hg
      obtain ⟨rfl, -⟩ : generation = g ∧ Delivery.pending = delivery := by simpa using hg
      exact hd
    · exact ⟨p', h, rfl, fun g hg => .inl hg⟩
  · exact setCall_store hrow get fun g hg => by simp [Call.Committed] at hg

theorem touch_store (hrow : RowOk s.row) {sql : Sqlite} {nowUnix : Int}
    (h : setLastSeen sql s.row nowUnix = .ok row) :
    s.StoreStep { s with row } := by
  obtain ⟨hok, hd⟩ := setLastSeen_ok hrow h
  exact ⟨rfl, rfl, rfl, rfl, hok, .inr hd.symm, fun i p hp => ⟨p, hp, rfl, fun g hg => .inl hg⟩⟩

theorem StoreStep.fresh (h : s.StoreStep s') (hf : s.Fresh entry snapshot) :
    s'.Fresh entry snapshot :=
  ⟨hf.1, hf.2.trans h.grows⟩

theorem StoreStep.knows (h : s.StoreStep s') (hstate : entry.state.Precedes (durable s.row))
    (hk : s.Knows entry w) :
    s'.Knows entry w := by
  -- a command that commits now is newer than everything published
  have hcall : ∀ {status : AuthorizationStatus} {i : Nat},
      (∀ p, s.calls[i]? = some p →
        p.write.status = status ∧ ∀ g, p.call.Committed g → s.Fresh entry ⟨status, g⟩) →
      ∀ p, s'.calls[i]? = some p →
        p.write.status = status ∧ ∀ g, p.call.Committed g → s'.Fresh entry ⟨status, g⟩ := by
    intro status i hold p' hp'
    obtain ⟨p, hp, hwrite, hcommit⟩ := h.calls i p' hp'
    obtain ⟨rfl, hfresh⟩ := hold p hp
    refine ⟨by rw [hwrite], fun g hg => ?_⟩
    rcases hcommit g hg with hg | hd
    · exact h.fresh (hfresh g hg)
    · rw [← hd]
      exact ⟨hstate.trans h.grows, .refl _⟩
  cases w with
  | revoking pending =>
    cases pending with
    | none => trivial
    | some i => exact hcall hk
  | authorizing prior pending =>
    cases pending with
    | none => exact hk
    | some i => exact ⟨hk.1, hcall hk.2⟩
  | rereading prior i read => exact ⟨hk.1, fun snapshot hr => h.fresh (hk.2 snapshot hr)⟩
  | publishing snapshot => exact h.fresh hk
  | waking snapshot => exact hk
  | published => trivial

theorem store_inv (hs : s.Inv) (h : s.StoreStep s') : s'.Inv where
  row := h.row
  state := fun entry he => (hs.state entry (h.entry ▸ he)).trans h.grows
  watch := fun entry he => hs.watch entry (h.entry ▸ he)
  woken := fun entry he hw => hs.woken entry (h.entry ▸ he) (h.writer ▸ hw)
  accepted := fun g hg => by
    rw [h.accepted] at hg
    rw [h.entry]
    exact hs.accepted g hg
  effects := fun g hg => by
    rw [h.effects] at hg
    rw [h.accepted, h.writer, h.entry]
    exact hs.effects g hg
  writer := fun w hw => by
    obtain ⟨entry, he, hk⟩ := hs.writer w (h.writer ▸ hw)
    exact ⟨entry, h.entry.trans he, h.knows (hs.state entry he) hk⟩

/-! ## Steps of a writer -/

theorem writer_inv (h : s.Inv) (hfree : s.effects = [])
    (hwaking : ∀ snapshot, s.writer ≠ some (.waking snapshot)) {next : Option Writer}
    {calls : List Pending}
    (hnext : ∀ w, next = some w → ∃ entry, s.entry = some entry ∧ ({ s with calls } : Authority).Knows entry w) :
    ({ s with writer := next, calls } : Authority).Inv where
  row := h.row
  state := h.state
  watch := h.watch
  woken := fun entry he _ => h.woken entry he hwaking
  accepted := h.accepted
  effects := fun g hg => by
    rw [show s.effects = _ from hfree] at hg
    cases hg
  writer := fun w hw => by
    obtain ⟨entry, he, hk⟩ := hnext w hw
    refine ⟨entry, he, ?_⟩
    cases w with
    | revoking pending => cases pending <;> exact hk
    | authorizing prior pending => cases pending <;> exact hk
    | rereading | publishing | waking | published => exact hk

theorem unlock_inv (h : s.Inv) (hw : s.writer = some w) (hwaking : ∀ snapshot, w ≠ .waking snapshot) :
    ({ s with writer := none } : Authority).Inv := by
  refine writer_inv h (h.no_effects hw) (fun snapshot hs => ?_) fun w hw' => ?_
  · exact hwaking snapshot (Option.some.inj (hw.symm.trans hs))
  · cases hw'

theorem outcome_inv (h : s.Inv) (hw : s.writer = some w) (get : s.calls[i]? = some p)
    (returns : p.call.Returns result call) (hwaking : ∀ snapshot, w ≠ .waking snapshot)
    {next : Option Writer}
    (hnext : ∀ entry, s.Knows entry w → ∀ w', next = some w' → (s.setCall i p call).Knows entry w') :
    ({ s.setCall i p call with writer := next } : Authority).Inv := by
  have hstore := setCall_store h.row get fun g hg => (returns.committed g).mp hg
  obtain ⟨entry, he, hk⟩ := h.writer w hw
  refine writer_inv (store_inv h hstore) (h.no_effects hw) ?_ fun w' hw' => ?_
  · intro snapshot hs
    exact hwaking snapshot (Option.some.inj (hw.symm.trans hs))
  · exact ⟨entry, he, hnext entry hk w' hw'⟩

theorem revokeOutcome_inv (h : s.Inv) (hw : s.writer = some (.revoking (some i)))
    (get : s.calls[i]? = some p) (returns : p.call.Returns result call) :
    ({ s.setCall i p call with writer := afterRevoke result } : Authority).Inv := by
  refine outcome_inv h hw get returns nofun fun entry hk w' hw' => ?_
  cases result with
  | error error => cases hw'
  | ok generation =>
    obtain rfl := Option.some.inj hw'
    exact (hk p get).2 generation returns.ok.2

theorem authorizeOutcome_inv (h : s.Inv) (hw : s.writer = some (.authorizing prior (some i)))
    (get : s.calls[i]? = some p) (returns : p.call.Returns result call) :
    ({ s.setCall i p call with writer := afterAuthorize prior i result } : Authority).Inv := by
  refine outcome_inv h hw get returns nofun fun entry hk w' hw' => ?_
  obtain ⟨hprior, hk⟩ := hk
  cases result with
  | ok generation =>
    obtain rfl := Option.some.inj hw'
    exact (hk p get).2 generation returns.ok.2
  | error error =>
    unfold afterAuthorize authorizeVerdict at hw'
    by_cases hkind : error.kind = .operationOutcomeUnknown
    · simp only [hkind, if_true, Option.some.injEq] at hw'
      subst hw'
      exact ⟨hprior, fun snapshot hc => by simp [Call.Committed] at hc⟩
    · simp [hkind] at hw'

theorem reread_inv (h : s.Inv) {read read' : Call AuthorizationSnapshot}
    (hw : s.writer = some (.rereading prior i read))
    (hread : ∀ snapshot, read'.Committed snapshot → read.Committed snapshot ∨ snapshot = durable s.row) :
    ({ s with writer := some (.rereading prior i read') } : Authority).Inv := by
  obtain ⟨entry, he, hprior, hk⟩ := h.writer _ hw
  refine writer_inv h (h.no_effects hw) (by simp [hw]) fun w' hw' => ?_
  obtain rfl := Option.some.inj hw'
  refine ⟨entry, he, hprior, fun snapshot hc => ?_⟩
  rcases hread snapshot hc with hc | rfl
  · exact hk snapshot hc
  · exact ⟨h.state entry he, .refl _⟩

theorem rereadVerdict_some {result : Except DaemonError AuthorizationSnapshot} {generation : Nat}
    (h : rereadVerdict prior result = some generation) :
    result = .ok ⟨.authorized, generation⟩ ∧ prior.generation < generation := by
  cases result with
  | error error => cases h
  | ok snapshot =>
    unfold rereadVerdict at h
    dsimp only at h
    split at h
    · rename_i hs
      obtain rfl := Option.some.inj h
      exact ⟨by rw [← hs.1], hs.2⟩
    · cases h

theorem readOutcome_inv (h : s.Inv) {read read' : Call AuthorizationSnapshot}
    {result : Except DaemonError AuthorizationSnapshot}
    (hw : s.writer = some (.rereading prior i read)) (returns : read.Returns result read') :
    ({ s with writer := afterReread prior result } : Authority).Inv := by
  obtain ⟨entry, he, hprior, hk⟩ := h.writer _ hw
  refine writer_inv h (h.no_effects hw) (by simp [hw]) fun w' hw' => ?_
  obtain ⟨generation, hv, rfl⟩ := Option.map_eq_some_iff.mp hw'
  obtain ⟨rfl, -⟩ := rereadVerdict_some hv
  exact ⟨entry, he, hk _ returns.ok.2⟩

theorem publish_inv (h : s.Inv) (hw : s.writer = some (.publishing snapshot))
    (get : s.entry = some entry) :
    ({ s with
       entry := some { entry with state := snapshot }
       writer := some (.waking snapshot) } : Authority).Inv := by
  obtain ⟨entry', he, hfresh⟩ := h.writer _ hw
  obtain rfl := Option.some.inj (get.symm.trans he)
  refine ⟨h.row, ?_, ?_, ?_, ?_, ?_, ?_⟩
  · intro e he
    obtain rfl := Option.some.inj he
    exact hfresh.2
  · intro e he
    obtain rfl := Option.some.inj he
    exact (h.watch entry get).trans hfresh.1
  · exact fun _ _ hne => absurd rfl (hne snapshot)
  · intro g hg
    obtain ⟨e, he, hp⟩ := h.accepted g hg
    obtain rfl := Option.some.inj (get.symm.trans he)
    exact ⟨_, rfl, hp.trans hfresh.1⟩
  · intro g hg
    rw [show s.effects = _ from h.no_effects hw] at hg
    cases hg
  · intro w hw'
    obtain rfl := Option.some.inj hw'
    exact ⟨_, rfl, rfl⟩

theorem wake_inv (h : s.Inv) (hw : s.writer = some (.waking snapshot)) (get : s.entry = some entry) :
    ({ s with
       entry := some { entry with watch := snapshot }
       writer := some .published } : Authority).Inv := by
  obtain ⟨entry', he, hstate⟩ := h.writer _ hw
  obtain rfl := Option.some.inj (get.symm.trans he)
  refine ⟨h.row, ?_, ?_, ?_, ?_, ?_, ?_⟩
  · intro e he
    obtain rfl := Option.some.inj he
    exact h.state entry get
  · intro e he
    obtain rfl := Option.some.inj he
    exact .inr hstate.symm
  · intro e he _
    obtain rfl := Option.some.inj he
    exact hstate.symm
  · intro g hg
    obtain ⟨e, he, hp⟩ := h.accepted g hg
    obtain rfl := Option.some.inj (get.symm.trans he)
    exact ⟨_, rfl, hp⟩
  · intro g hg
    rw [show s.effects = _ from h.no_effects hw] at hg
    cases hg
  · intro w hw'
    obtain rfl := Option.some.inj hw'
    exact ⟨_, rfl, trivial⟩

/-! ## Connections, effects and entries -/

theorem admission_ok {entry : Option AuthEntry} (h : admission entry = .ok snapshot) :
    ∃ e, entry = some e ∧ e.watch = snapshot ∧ snapshot.status = .authorized := by
  cases entry with
  | none => cases h
  | some e =>
    unfold admission at h
    dsimp only at h
    split at h
    · cases h
    · rename_i hs
      obtain rfl := Except.ok.inj h
      exact ⟨e, rfl, rfl, not_not.mp hs⟩

theorem acquireCommit_ok {entry : Option AuthEntry} {generation : Nat}
    (h : acquireCommit entry generation = .ok ()) :
    ∃ e, entry = some e ∧ e.state = ⟨.authorized, generation⟩ := by
  cases entry with
  | none => cases h
  | some e =>
    unfold acquireCommit at h
    dsimp only at h
    split at h
    · cases h
    split at h
    · cases h
    · rename_i hs hg
      exact ⟨e, rfl, by rw [← not_not.mp hs, ← not_not.mp hg]⟩

theorem accept_inv (h : s.Inv) (hadmission : admission s.entry = .ok snapshot) :
    ({ s with accepted := snapshot.generation :: s.accepted } : Authority).Inv := by
  obtain ⟨entry, he, rfl, hs⟩ := admission_ok hadmission
  refine { h with accepted := fun g hg => ?_, effects := fun g hg => ?_ }
  · rcases List.mem_cons.mp hg with rfl | hg
    · refine ⟨entry, he, ?_⟩
      rw [← hs]
      exact h.watch entry he
    · exact h.accepted g hg
  · obtain ⟨hmem, hrest⟩ := h.effects g hg
    exact ⟨List.mem_cons_of_mem _ hmem, hrest⟩

theorem insert_inv (h : s.Inv) :
    ({ s with entry := some (entryOrInsert s.entry) } : Authority).Inv := by
  cases hentry : s.entry with
  | some entry =>
    have : ({ s with entry := some (entryOrInsert (some entry)) } : Authority) = s := by
      rw [entryOrInsert, Option.getD_some, ← hentry]
    exact this ▸ h
  | none =>
    -- nothing was accepted, and nobody holds the lock of a missing entry
    have habsent : AuthorizationSnapshot.absent.Precedes (durable s.row) := by
      cases hrow : s.row with
      | none => exact .refl _
      | some r => exact .inl (durable_positive (hrow ▸ h.row))
    refine ⟨h.row, ?_, ?_, ?_, ?_, ?_, ?_⟩
    · intro e he
      obtain rfl := Option.some.inj he
      exact habsent
    · intro e he
      obtain rfl := Option.some.inj he
      exact .refl _
    · intro e he _
      obtain rfl := Option.some.inj he
      rfl
    · intro g hg
      obtain ⟨e, he, -⟩ := h.accepted g hg
      rw [hentry] at he
      cases he
    · intro g hg
      obtain ⟨-, -, e, he, -⟩ := h.effects g hg
      rw [hentry] at he
      cases he
    · intro w hw
      obtain ⟨e, he, -⟩ := h.writer w hw
      rw [hentry] at he
      cases he

theorem step_inv (h : s.Inv) (step : Step s s') : s'.Inv := by
  cases step with
  | accept hadmission => exact accept_inv h hadmission
  | begin mem unlocked hcommit =>
    refine { h with effects := fun g hg => ?_ }
    rcases List.mem_cons.mp hg with rfl | hg
    · exact ⟨mem, unlocked, acquireCommit_ok hcommit⟩
    · exact h.effects g hg
  | finish i => exact { h with effects := fun g hg => h.effects g (List.mem_of_mem_eraseIdx hg) }
  | touch htouch => exact store_inv h (touch_store h.row htouch)
  | insert => exact insert_inv h
  | lockRevoke free hentry =>
    refine writer_inv h free.2 (by simp [free.1]) fun w hw => ?_
    obtain rfl := Option.some.inj hw
    cases he : s.entry with
    | none => simp [revokeGuard, he] at hentry
    | some e => exact ⟨e, rfl, trivial⟩
  | lockAuthorize free hentry =>
    refine writer_inv h free.2 (by simp [free.1]) fun w hw => ?_
    obtain rfl := Option.some.inj hw
    exact ⟨_, hentry, rfl⟩
  | askRevoke hw nowUnix =>
    obtain ⟨entry, he, -⟩ := h.writer _ hw
    refine writer_inv h (h.no_effects hw) (by simp [hw]) fun w hw' => ?_
    obtain rfl := Option.some.inj hw'
    refine ⟨entry, he, fun p hp => ?_⟩
    obtain rfl : _ = p := by simpa using hp
    exact ⟨rfl, fun g hg => by simp [Call.Committed] at hg⟩
  | askAuthorize hw displayName nowUnix =>
    obtain ⟨entry, he, hprior⟩ := h.writer _ hw
    refine writer_inv h (h.no_effects hw) (by simp [hw]) fun w hw' => ?_
    obtain rfl := Option.some.inj hw'
    refine ⟨entry, he, hprior, fun p hp => ?_⟩
    obtain rfl : _ = p := by simpa using hp
    exact ⟨rfl, fun g hg => by simp [Call.Committed] at hg⟩
  | giveUp hw | refuse hw _ | unlock hw => exact unlock_inv h hw (by simp)
  | move get moves idle =>
    exact store_inv h (setCall_store h.row get fun g hg => (moves.committed g).mp hg)
  | decide get running sql => exact store_inv h (decide_store h.row get sql)
  | revokeOutcome hw get returns => exact revokeOutcome_inv h hw get returns
  | authorizeOutcome hw get returns => exact authorizeOutcome_inv h hw get returns
  | readMove hw moves idle =>
    exact reread_inv h hw fun snapshot hc => .inl ((moves.committed snapshot).mp hc)
  | readDecide hw sql =>
    refine reread_inv h hw fun snapshot hc => .inr ?_
    obtain ⟨delivery, hc⟩ := hc
    obtain ⟨hread, -⟩ := Call.ran.inj hc
    exact authorizationSnapshot_ok h.row hread
  | readOutcome hw returns => exact readOutcome_inv h hw returns
  | publish hw get valid => exact publish_inv h hw get
  | wake hw get => exact wake_inv h hw get
  | cancel hw waits =>
    refine unlock_inv h hw fun snapshot hs => ?_
    subst hs
    cases waits

theorem reachable_inv {s₀ : Authority} (hboot : boot row = .ok s₀) (h : ReflTransGen Step s₀ s) :
    s.Inv := by
  have hpreserved : Preserved Step Inv := fun _ _ step hs => step_inv hs step
  exact hpreserved.run h (boot_inv hboot)

/-! ## The barrier -/

/-- What a step publishes is never older than what was published. -/
theorem step_state (h : s.Inv) (step : Step s s') (he : s.entry = some entry) :
    ∃ entry', s'.entry = some entry' ∧ entry.state.Precedes entry'.state := by
  cases step with
  | insert => exact ⟨entry, by rw [he]; rfl, .refl _⟩
  | publish hw get valid =>
    obtain rfl := Option.some.inj (get.symm.trans he)
    obtain ⟨entry', he', hfresh⟩ := h.writer _ hw
    obtain rfl := Option.some.inj (get.symm.trans he')
    exact ⟨_, rfl, hfresh.1⟩
  | wake hw get =>
    obtain rfl := Option.some.inj (get.symm.trans he)
    exact ⟨_, rfl, .refl _⟩
  | decide get running sql =>
    exact ⟨entry, (decide_store h.row get sql).entry.trans he, .refl _⟩
  | accept | begin | finish | touch | lockRevoke | lockAuthorize | askRevoke | askAuthorize
  | giveUp | move | revokeOutcome | authorizeOutcome | readMove | readDecide | readOutcome
  | refuse | unlock | cancel => exact ⟨entry, he, .refl _⟩

theorem run_state (h : s.Inv) (run : ReflTransGen Step s s') (he : s.entry = some entry) :
    ∃ entry', s'.entry = some entry' ∧ entry.state.Precedes entry'.state := by
  have hpreserved : Preserved Step fun t => t.Inv ∧
      ∃ entry', t.entry = some entry' ∧ entry.state.Precedes entry'.state := by
    rintro t t' step ⟨ht, e, he, hp⟩
    obtain ⟨e', he', hp'⟩ := step_state ht step he
    exact ⟨step_inv ht step, e', he', hp.trans hp'⟩
  exact (hpreserved.run run ⟨h, entry, he, .refl _⟩).2

/-- Effects run only under the published generation they were accepted with, and nothing accepted
before a revocation was published runs after it. -/
theorem revocation_is_barrier {row : Option AuthorizationRow} {s₀ s : Authority}
    (hboot : boot row = .ok s₀) (h : ReflTransGen Step s₀ s) :
    (∀ g ∈ s.effects, g ∈ s.accepted ∧
      ∃ entry, s.entry = some entry ∧ entry.state = ⟨.authorized, g⟩) ∧
    ∀ g s₁, s.writer = some (.publishing ⟨.revoked, g⟩) → Step s s₁ →
      s₁.writer = some (.waking ⟨.revoked, g⟩) →
      ∀ s₂, ReflTransGen Step s₁ s₂ → ∀ e ∈ s₂.effects, e ∉ s₁.accepted := by
  have hinv := reachable_inv hboot h
  refine ⟨fun g hg => ?_, fun g s₁ _ step hw s₂ run e he hmem => ?_⟩
  · obtain ⟨hmem, -, hentry⟩ := hinv.effects g hg
    exact ⟨hmem, hentry⟩
  · have hinv₁ := step_inv hinv step
    obtain ⟨entry₁, he₁, hstate₁⟩ := hinv₁.writer _ hw
    -- accepted before: strictly below the revocation
    have hbefore : e < g := by
      obtain ⟨entry, hentry, hp⟩ := hinv₁.accepted e hmem
      obtain rfl := Option.some.inj (he₁.symm.trans hentry)
      rw [show entry₁.state = _ from hstate₁] at hp
      exact hp.lt_of_status nofun
    -- running now: not below it
    obtain ⟨entry₂, he₂, hp₂⟩ := run_state hinv₁ run he₁
    obtain ⟨-, -, entry, hentry, hstate⟩ :=
      (reachable_inv hboot ((h.tail step).trans run)).effects e he
    obtain rfl := Option.some.inj (he₂.symm.trans hentry)
    rw [show entry₁.state = _ from hstate₁, hstate] at hp₂
    have := hp₂.le
    simp only at this
    omega

def sampleRow : AuthorizationRow := ⟨"peer", 1, 1, 1, none, none⟩

def sampleTombstone : AuthorizationRow := ⟨"peer", 2, 2, 1, some 9, none⟩

/-- A device authorized when the daemon starts, with one connection accepted. -/
def sample (row : AuthorizationRow) (writer : Option Writer) (calls : List Pending) : Authority :=
  { row := some row, entry := some (.new ⟨.authorized, 1⟩), accepted := [1], writer, calls }

def sampleStart : Authority := { sample sampleRow none [] with accepted := [] }

theorem boot_sample : boot (some sampleRow) = .ok sampleStart := rfl

theorem sample_asked :
    ReflTransGen (fun s s' => Step s s' ∧ (s.writer = none ∨ s'.writer ≠ none)) sampleStart
      (sample sampleRow (some (.revoking (some 0))) [⟨.revoke 9, .queued⟩]) := by
  have hadmission : admission sampleStart.entry = .ok ⟨.authorized, 1⟩ := rfl
  have accept : Step sampleStart (sample sampleRow none []) := .accept hadmission
  have lock : Step (sample sampleRow none []) (sample sampleRow (some (.revoking none)) []) :=
    .lockRevoke ⟨rfl, rfl⟩ rfl
  have ask : Step (sample sampleRow (some (.revoking none)) [])
      (sample sampleRow (some (.revoking (some 0))) [⟨.revoke 9, .queued⟩]) := .askRevoke rfl 9
  exact .tail (.tail (.single ⟨accept, .inl rfl⟩) ⟨lock, .inl rfl⟩) ⟨ask, .inr nofun⟩

theorem sample_committed : ReflTransGen Step sampleStart
    (sample sampleTombstone (some (.revoking (some 0))) [⟨.revoke 9, .ran (.ok 2) .pending⟩]) := by
  have idle : ¬(sample sampleRow (some (.revoking (some 0))) [⟨.revoke 9, .queued⟩]).Busy := by
    rintro (⟨i, p, hp, hrunning⟩ | ⟨prior, i, hw⟩)
    · obtain ⟨-, rfl⟩ : i = 0 ∧ _ := by simpa [sample, List.getElem?_cons] using hp
      cases hrunning
    · cases hw
  have meet : Call.Moves (.queued : Call Nat) .running := .meet false
  have start : Step (sample sampleRow (some (.revoking (some 0))) [⟨.revoke 9, .queued⟩])
      (sample sampleRow (some (.revoking (some 0))) [⟨.revoke 9, .running⟩]) :=
    .move (i := 0) (p := ⟨.revoke 9, .queued⟩) rfl meet fun _ => idle
  have commit : Step (sample sampleRow (some (.revoking (some 0))) [⟨.revoke 9, .running⟩])
      (sample sampleTombstone (some (.revoking (some 0)))
        [⟨.revoke 9, .ran (.ok 2) .pending⟩]) := .decide (i := 0) (p := ⟨.revoke 9, .running⟩) rfl rfl {}
  exact .tail (.tail (ReflTransGen.mono (fun _ _ h => h.1) _ _ sample_asked) start) commit

/-- Once that revocation is published, the accepted connection's effects are over. -/
theorem revocation_is_barrier_sample : boot (some sampleRow) = .ok sampleStart ∧
    ∀ s₂, ReflTransGen Step { sample sampleTombstone (some (.waking ⟨.revoked, 2⟩))
        [⟨.revoke 9, .ran (.ok 2) .sent⟩] with
        entry := some ⟨⟨.revoked, 2⟩, ⟨.authorized, 1⟩⟩ } s₂ → 1 ∉ s₂.effects := by
  have reply : Call.Moves (.ran (.ok 2) .pending : Call Nat) (.ran (.ok 2) .sent) := .reply _
  have replied : Step
      (sample sampleTombstone (some (.revoking (some 0))) [⟨.revoke 9, .ran (.ok 2) .pending⟩])
      (sample sampleTombstone (some (.revoking (some 0))) [⟨.revoke 9, .ran (.ok 2) .sent⟩]) :=
    .move (i := 0) (p := ⟨.revoke 9, .ran (.ok 2) .pending⟩) rfl reply nofun
  have returns : Call.Returns (.ran (.ok 2) .sent : Call Nat) (.ok 2) (.ran (.ok 2) .sent) :=
    .waited (.reply _)
  have learnt : Step
      (sample sampleTombstone (some (.revoking (some 0))) [⟨.revoke 9, .ran (.ok 2) .sent⟩])
      (sample sampleTombstone (some (.publishing ⟨.revoked, 2⟩))
        [⟨.revoke 9, .ran (.ok 2) .sent⟩]) :=
    .revokeOutcome (i := 0) (p := ⟨.revoke 9, .ran (.ok 2) .sent⟩) rfl rfl returns
  refine ⟨boot_sample, fun s₂ run hmem => ?_⟩
  have barrier := revocation_is_barrier boot_sample ((sample_committed.tail replied).tail learnt)
  exact barrier.2 2 _ rfl (.publish rfl rfl rfl) rfl s₂ run 1 hmem (by decide)

end Voytty.Daemon.Authority
