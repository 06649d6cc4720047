import Voytty.Daemon.ResumeCheckpoint

/-!
# The snapshot fence

A client is fenced off until it acknowledges the snapshot made for it. Two
histories run beside the session: the revisions made for each handle, and the
acknowledgements accepted. `Fenced` ties them to the attachments, so that only the
acknowledgement of what was made last releases a fence.
-/

namespace Voytty.Daemon

open Voytty.Lib Voytty.Terminal

variable {R : Type} {em : Emulator R}

/-! ## Histories -/

def SessionRuntime.accepts (rt : SessionRuntime R) : ActorEvent → Option (Nat × Nat)
  | .command (.snapshotApplied id revision) _ =>
    if rt.ended then none else
    rt.attachments[id]?.bind fun a =>
      match a.sync with
      | .awaiting expected _ => if revision = expected then some (a.handle, revision) else none
      | _ => none
  | _ => none

/-- A session with what was made for each handle and what was acknowledged by it, newest first. -/
structure Watched (R : Type) where
  rt : SessionRuntime R
  made : List (Nat × Nat) := []
  accepted : List (Nat × Nat) := []

namespace Watched

variable (em) (cfg : ActorConfig)

def step (w : Watched R) (e : ActorEvent) : Watched R where
  rt := w.rt.step em cfg e
  made := (w.rt.produced em cfg e).toList ++ w.made
  accepted := (w.rt.accepts e).toList ++ w.accepted

def run (model : TerminalModel R) (events : List ActorEvent) : Watched R :=
  events.foldl (step em cfg) { rt := .start model }

end Watched

theorem lookup_append (entry : Option (Nat × Nat)) (rest : List (Nat × Nat)) (handle : Nat) :
    (entry.toList ++ rest).lookup handle = (madeFor entry handle).or (rest.lookup handle) := by
  cases entry with
  | none => rfl
  | some p =>
    obtain ⟨key, revision⟩ := p
    by_cases h : key = handle
    · subst h
      simp [madeFor]
    · have hne : (handle == key) = false := by simpa using Ne.symm h
      simp [madeFor, h, List.lookup_cons, hne]

/-! ## One attachment -/

/-- A snapshot that is still to be delivered is the one awaited. -/
def PendingAwaited (a : ActorAttachment) : Prop :=
  ∀ s, a.pendingColorSnapshot = some s → ∃ g, a.sync = .awaiting s.revision (.active g)

theorem takeoverReady_target {a : ActorAttachment} (h : a.takeoverReady = true) :
    a.sync.target = .preparedTakeover := by
  unfold ActorAttachment.takeoverReady at h
  split at h
  · rename_i hs
    rw [hs]; rfl
  · rename_i hs
    rw [hs]; rfl
  · cases h

section Change

variable {driver : TerminalDriver R} {e : ActorEvent} {id : AttachmentId} {a a' : ActorAttachment}
  {made : Option Nat}

theorem PendingAwaited.of_ready (hp : PendingAwaited a) (hr : a.takeoverReady = true) :
    a.pendingColorSnapshot = none := by
  cases hs : a.pendingColorSnapshot with
  | none => rfl
  | some s =>
    obtain ⟨g, hg⟩ := hp s hs
    have := takeoverReady_target hr
    rw [hg] at this
    cases this

variable {r : Nat} {t : SyncTarget}

theorem promoted_sync {generation : Nat} (h : a.sync = .awaiting r t) :
    (a.promoted generation).sync = .awaiting r (.active generation) := by
  simp only [ActorAttachment.promoted, h]

theorem promoted_awaiting {generation : Nat} (h : (a.promoted generation).sync = .awaiting r t) :
    ∃ t', a.sync = .awaiting r t' := by
  unfold ActorAttachment.promoted at h
  split at h
  · rename_i revision target hs
    obtain ⟨rfl, -⟩ := AttachmentSync.awaiting.inj h
    exact ⟨target, hs⟩
  · cases h

theorem finalTerminalUpdate_same (driver : TerminalDriver R) (a : ActorAttachment) :
    ∃ terminal, (SessionRuntime.finalTerminalUpdate driver a).2 = { a with terminal } := by
  unfold SessionRuntime.finalTerminalUpdate
  split <;> exact ⟨_, rfl⟩

theorem Change.pending (h : Change driver e id a a' made) (hp : PendingAwaited a) :
    PendingAwaited a' := by
  cases h with
  | kept => exact hp
  | colored => exact hp
  | controlled => exact hp
  | acknowledged _ =>
    intro s hs
    unfold ActorAttachment.applied at hs
    dsimp only at hs
    split at hs <;> cases hs
  | shown | fenced | lost => intro s hs; cases hs
  | advanced due _ =>
    intro s hs
    cases due.idle.symm.trans hs
  | finalized _ =>
    obtain ⟨terminal, ht⟩ := finalTerminalUpdate_same driver a
    rw [ht]
    exact hp
  | recolored _ _ _ =>
    intro s hs
    obtain rfl := Option.some.inj hs
    exact ⟨_, rfl⟩
  | promoted takes | halted takes _ =>
    intro s hs
    rw [(SessionRuntime.promoted_pending a _).1, hp.of_ready takes.ready] at hs
    cases hs

theorem Change.fence (h : Change driver e id a a' made) (hp : PendingAwaited a)
    (ha' : a'.sync = .awaiting r t) :
    (made = none ∨ made = some r) ∧ (∃ t', a.sync = .awaiting r t') ∨
      made = some r ∧ r = driver.model.publishedRevision := by
  cases h with
  | kept | colored | lost => exact .inl ⟨.inl rfl, t, ha'⟩
  | acknowledged _ =>
    unfold ActorAttachment.applied at ha'
    dsimp only at ha'
    split at ha' <;> cases ha'
  | shown pending =>
    obtain ⟨g, hg⟩ := hp _ pending
    obtain ⟨rfl, -⟩ := AttachmentSync.awaiting.inj (hg.symm.trans ha')
    exact .inl ⟨.inr rfl, t, ha'⟩
  | advanced due _ => exact absurd ha' (due.synchronized r t)
  | fenced _ _ =>
    obtain ⟨rfl, -⟩ := AttachmentSync.awaiting.inj ha'
    exact .inr ⟨rfl, rfl⟩
  | finalized _ =>
    obtain ⟨terminal, ht⟩ := finalTerminalUpdate_same driver a
    rw [ht] at ha'
    exact .inl ⟨.inl rfl, t, ha'⟩
  | controlled =>
    refine .inl ⟨?_, t, ha'⟩
    cases hs : a.pendingColorSnapshot with
    | none => exact .inl rfl
    | some s =>
      obtain ⟨g, hg⟩ := hp s hs
      obtain ⟨rfl, -⟩ := AttachmentSync.awaiting.inj (hg.symm.trans ha')
      exact .inr rfl
  | promoted takes =>
    rw [hp.of_ready takes.ready]
    exact .inl ⟨.inl rfl, promoted_awaiting ha'⟩
  | recolored _ _ hrev =>
    obtain ⟨rfl, -⟩ := AttachmentSync.awaiting.inj ha'
    exact .inr ⟨rfl, hrev⟩
  | halted takes _ => exact .inl ⟨.inl rfl, promoted_awaiting ha'⟩

theorem Change.released (h : Change driver e id a a' made) (ha : a.sync = .awaiting r t)
    (ha' : ∀ r' t', a'.sync ≠ .awaiting r' t') :
    ∃ env, e = .command (.snapshotApplied id r) env ∧ a' = a.applied r := by
  cases h with
  | kept => exact absurd ha (ha' r t)
  | colored => exact absurd ha (ha' r t)
  | lost _ _ => exact absurd ha (ha' r t)
  | shown _ => exact absurd ha (ha' r t)
  | advanced due _ => exact absurd ha (due.synchronized r t)
  | controlled => exact absurd ha (ha' r t)
  | fenced _ _ => exact absurd rfl (ha' _ _)
  | recolored _ _ _ => exact absurd rfl (ha' _ _)
  | acknowledged awaits =>
    obtain ⟨rfl, rfl⟩ := AttachmentSync.awaiting.inj (awaits.symm.trans ha)
    exact ⟨_, rfl, rfl⟩
  | finalized _ =>
    obtain ⟨terminal, ht⟩ := finalTerminalUpdate_same driver a
    rw [ht] at ha'
    exact absurd ha (ha' r t)
  | promoted _ => exact absurd (promoted_sync ha) (ha' _ _)
  | halted _ _ => exact absurd (promoted_sync ha) (ha' _ _)

theorem Change.applied (h : Change driver e id a a' made) :
    a'.appliedSnapshotRevision = a.appliedSnapshotRevision ∨
      ∃ revision target env, e = .command (.snapshotApplied id revision) env ∧
        a.sync = .awaiting revision target ∧ a' = a.applied revision := by
  cases h with
  | acknowledged awaits => exact .inr ⟨_, _, _, rfl, awaits, rfl⟩
  | finalized _ =>
    obtain ⟨terminal, ht⟩ := finalTerminalUpdate_same driver a
    rw [ht]
    exact .inl rfl
  | promoted _ => exact .inl (by unfold ActorAttachment.promoted; split <;> rfl)
  | halted _ _ => exact .inl (by unfold ActorAttachment.promoted; split <;> rfl)
  | _ => exact .inl rfl

end Change

theorem applied_revision (a : ActorAttachment) (revision : Nat) :
    (a.applied revision).appliedSnapshotRevision = some revision := by
  unfold ActorAttachment.applied
  dsimp only
  split <;> rfl

/-! ## Acknowledgements -/

namespace SessionRuntime

variable {rt : SessionRuntime R} {env : Meanwhile} {id : AttachmentId} {a : ActorAttachment}
  {revision : Nat}

theorem accepts_some {e : ActorEvent} {m : Nat × Nat} (h : rt.accepts e = some m) :
    rt.ended = false ∧ ∃ id a env target, e = .command (.snapshotApplied id m.2) env ∧
      rt.attachments[id]? = some a ∧ a.sync = .awaiting m.2 target ∧ m.1 = a.handle := by
  unfold accepts at h
  split at h
  · rename_i id revision env
    split at h
    · cases h
    rename_i hlive
    obtain ⟨a, ha, h⟩ := Option.bind_eq_some_iff.mp h
    split at h
    · rename_i expected target hsync
      split at h
      · rename_i heq
        obtain rfl := Option.some.inj h
        subst heq
        exact ⟨by simpa using hlive, id, a, env, target, rfl, ha, hsync, rfl⟩
      · cases h
    · cases h
  · cases h

theorem snapshotApplied_exact {target : SyncTarget} (ha : rt.attachments[id]? = some a)
    (hsync : a.sync = .awaiting revision target) :
    (rt.snapshotApplied em env id revision).2.attachments[id]? = some (a.applied revision) := by
  simp only [snapshotApplied, ha, hsync, ne_eq, not_true_eq_false, false_and, if_false]
  exact OrdMap.get_insert.trans (if_pos rfl)

theorem snapshotApplied_repeated (ha : rt.attachments[id]? = some a)
    (happlied : a.appliedSnapshotRevision = some revision)
    (hsync : ∀ target, a.sync ≠ .awaiting revision target) :
    rt.snapshotApplied em env id revision = (.ok none, rt) := by
  simp only [snapshotApplied, ha, happlied]
  split
  · rename_i expected target hs
    have hne : revision ≠ expected := fun heq => hsync target (heq ▸ hs)
    rw [if_pos ⟨hne, trivial⟩]
  · rfl

/-- The attachments but one, the controller and the rest that admits commands are as before. -/
structure SameAuthority (id : AttachmentId) (rt rt' : SessionRuntime R) : Prop where
  others : ∀ id' : AttachmentId, id' ≠ id → rt'.attachments[id']? = rt.attachments[id']?
  controller : rt'.controller = rt.controller

/-- Any other acknowledgement leaves a fence, for the same role and not a lower one. -/
theorem snapshotApplied_other {expected : Nat} {target : SyncTarget}
    (ha : rt.attachments[id]? = some a) (hsync : a.sync = .awaiting expected target)
    (hne : revision ≠ expected)
    (hfence : expected ≤ (rt.meet em env 0).driver.model.publishedRevision) :
    ∃ a' r', (rt.snapshotApplied em env id revision).2.attachments[id]? = some a' ∧
      a'.handle = a.handle ∧ a'.sync = .awaiting r' target ∧ expected ≤ r' ∧
      a'.everActive = a.everActive ∧
      SameAuthority id rt (rt.snapshotApplied em env id revision).2 := by
  simp only [snapshotApplied, ha, hsync]
  split
  · exact ⟨a, expected, ha, rfl, hsync, Nat.le_refl _, rfl, fun _ _ => rfl, rfl⟩
  have hothers : ∀ (x : ActorAttachment) (id' : AttachmentId), id' ≠ id →
      (rt.setAttachment id x).attachments[id']? = rt.attachments[id']? := fun x id' h => by
    rw [get_setAttachment, if_neg (Ne.symm h)]
  unfold resynchronize
  dsimp only
  cases hf : (rt.meet em env 0).driver.failure with
  | none =>
    rw [TerminalDriver.fullSync_healthy hf]
    have hraised : expected ≤ (rt.meet em env 0).driver.model.snapshot.revision := by
      rw [snapshot_revision]
      exact hfence
    exact ⟨_, _, OrdMap.get_insert.trans (if_pos rfl), rfl, by rw [hsync]; rfl, hraised, rfl,
      hothers _, rfl⟩
  | some error =>
    rw [TerminalDriver.fullSync_failed hf]
    exact ⟨_, expected, OrdMap.get_insert.trans (if_pos rfl), rfl, hsync, Nat.le_refl _, rfl,
      hothers _, rfl⟩

theorem SameAuthority.admits {rt' : SessionRuntime R} {a' : ActorAttachment} {r r' : Nat}
    {target : SyncTarget} (h : SameAuthority id rt rt') (ha : rt.attachments[id]? = some a)
    (ha' : rt'.attachments[id]? = some a') (hsync : a.sync = .awaiting r target)
    (hsync' : a'.sync = .awaiting r' target) (hactive : a'.everActive = a.everActive)
    (id' : AttachmentId) :
    rt'.requireExistingVisualSyncController id' = rt.requireExistingVisualSyncController id' := by
  unfold requireExistingVisualSyncController requireResizeController
  by_cases hid : id' = id
  · subst hid
    simp only [ha, ha', hsync, hsync', hactive, h.controller, AttachmentSync.target]
    cases a.everActive <;> rfl
  · rw [h.others id' hid, h.controller]

end SessionRuntime

/-! ## Runs -/

/-- The histories describe the attachments. -/
structure Fenced (w : Watched R) : Prop where
  handles : Handles w.rt
  tracks : Tracks w.rt.driver.model w.rt.driver.model
  pending : ∀ (id : AttachmentId) (a : ActorAttachment), w.rt.attachments[id]? = some a →
    PendingAwaited a
  fence : ∀ (id : AttachmentId) (a : ActorAttachment) (r : Nat) (t : SyncTarget),
    w.rt.attachments[id]? = some a → a.sync = .awaiting r t →
      w.made.lookup a.handle = some r ∧ r ≤ w.rt.driver.model.publishedRevision
  applied : ∀ (id : AttachmentId) (a : ActorAttachment), w.rt.attachments[id]? = some a →
    a.appliedSnapshotRevision = w.accepted.lookup a.handle
  known : ∀ p ∈ w.accepted, p.1 < w.rt.handles.length

theorem Fenced.start {size : TerminalSize} {scrollbackRows : Nat} {model : TerminalModel R}
    (hnew : TerminalModel.new em size scrollbackRows = .ok model) :
    Fenced { rt := .start model } where
  handles := ⟨by simp [SessionRuntime.start], by simp [SessionRuntime.start]⟩
  tracks := .live (new_ingress hnew).2.2.1
  pending := by simp [SessionRuntime.start]
  fence := by simp [SessionRuntime.start]
  applied := by simp [SessionRuntime.start]
  known := by simp

section Step

variable {w : Watched R}

theorem lookup_unknown {entries : List (Nat × Nat)} {handle : Nat} (h : ∀ p ∈ entries, p.1 < handle) :
    entries.lookup handle = none := by
  rw [List.lookup_eq_none_iff]
  intro p hp
  have := h p hp
  simpa using (Nat.ne_of_lt this).symm

theorem applied_handle (a : ActorAttachment) (revision : Nat) :
    (a.applied revision).handle = a.handle := by
  unfold ActorAttachment.applied
  dsimp only
  split <;> rfl

theorem Fenced.applied_kept (h : Fenced w) (cfg : ActorConfig) {e : ActorEvent}
    (hnone : w.rt.accepts e = none) {id : AttachmentId} {a' : ActorAttachment}
    (ha' : (w.rt.step em cfg e).attachments[id]? = some a') :
    a'.appliedSnapshotRevision = w.accepted.lookup a'.handle := by
  rcases (SessionRuntime.step_moves em cfg h.handles e).advance.evolves id a' ha' with ⟨a, ha, hc⟩ | hf
  · rw [hc.handle, ← h.applied id a ha]
    rcases hc.applied with happ | ⟨revision, target, env, rfl, hsync, rfl⟩
    · exact happ
    · -- the session has ended, or the acknowledgement would have been accepted
      cases hended : w.rt.ended with
      | false => simp [SessionRuntime.accepts, hended, ha, hsync] at hnone
      | true =>
        have hsame : w.rt.step em cfg (.command (.snapshotApplied id revision) env) = w.rt := by
          simp [SessionRuntime.step, hended]
        rw [hsame] at ha'
        rw [Option.some.inj (ha'.symm.trans ha)]
  · rw [hf.applied, hf.handle]
    exact (lookup_unknown h.known).symm

theorem Fenced.step_applied (h : Fenced w) (cfg : ActorConfig) (e : ActorEvent)
    {id : AttachmentId} {a' : ActorAttachment}
    (ha' : (w.rt.step em cfg e).attachments[id]? = some a') :
    a'.appliedSnapshotRevision = (w.step em cfg e).accepted.lookup a'.handle := by
  show _ = ((w.rt.accepts e).toList ++ w.accepted).lookup _
  rw [lookup_append]
  cases hacc : w.rt.accepts e with
  | none => exact h.applied_kept cfg hacc ha'
  | some m =>
    obtain ⟨hlive, id0, a0, env, target, rfl, ha0, hsync0, hm⟩ := SessionRuntime.accepts_some hacc
    by_cases hid : id = id0
    · subst hid
      have hexact : (w.rt.step em cfg (.command (.snapshotApplied id m.2) env)).attachments[id]? =
          some (a0.applied m.2) := by
        simp only [SessionRuntime.step, hlive]
        exact SessionRuntime.snapshotApplied_exact ha0 hsync0
      obtain rfl := Option.some.inj (ha'.symm.trans hexact)
      rw [applied_revision, applied_handle, ← hm]
      exact (madeFor_self m.1 m.2).symm ▸ rfl
    · rcases (SessionRuntime.step_moves em cfg h.handles _).advance.evolves id a' ha' with
        ⟨a, ha, hc⟩ | hf
      · have hother : m.1 ≠ a.handle := fun heq =>
          hid (h.handles.unique id id0 a a0 ha ha0 (heq.symm.trans hm))
        rw [hc.handle, show some m = some (m.1, m.2) from rfl, madeFor_other hother, Option.none_or,
          ← h.applied id a ha]
        rcases hc.applied with happ | ⟨revision, target, env, he, -, -⟩
        · exact happ
        · cases he
          exact absurd rfl hid
      · obtain ⟨principal, takeover, resume, baseColors, env', he⟩ := hf.asked
        cases he

theorem Fenced.step (h : Fenced w) (cfg : ActorConfig) (e : ActorEvent) :
    Fenced (w.step em cfg e) := by
  have hadv := (SessionRuntime.step_moves em cfg h.handles e).advance
  have hmodel := hadv.model h.tracks
  refine ⟨hadv.handles_inv h.handles, hmodel.1, fun id a' ha' => ?_, fun id a' r t ha' hs => ?_,
    fun id a' ha' => h.step_applied cfg e ha', fun p hp => ?_⟩
  · rcases hadv.evolves id a' ha' with ⟨a, ha, hc⟩ | hf
    · exact hc.pending (h.pending id a ha)
    · intro s hs
      cases hf.pending.symm.trans hs
  · show ((w.rt.produced em cfg e).toList ++ w.made).lookup _ = _ ∧ _
    rw [lookup_append]
    rcases hadv.evolves id a' ha' with ⟨a, ha, hc⟩ | hf
    · rw [hc.handle]
      rcases hc.fence (h.pending id a ha) hs with ⟨hm, t', ht'⟩ | ⟨hm, hr⟩
      · obtain ⟨hlook, hle⟩ := h.fence id a r t' ha ht'
        refine ⟨?_, hle.trans hmodel.2⟩
        rcases hm with hm | hm <;> rw [hm]
        · exact hlook
        · rfl
      · rw [hm]
        exact ⟨rfl, hr.le⟩
    · obtain ⟨revision, target, hm, hsync, hle⟩ := hf.fence
      obtain ⟨rfl, -⟩ := AttachmentSync.awaiting.inj (hsync.symm.trans hs)
      rw [hm, madeFor_self]
      exact ⟨rfl, hle h.tracks⟩
  · have hgrow := hadv.handles
    rcases List.mem_append.mp hp with hp | hp
    · obtain ⟨-, id, a, env, target, -, ha, -, hm⟩ :=
        SessionRuntime.accepts_some (Option.mem_toList.mp hp)
      rw [hm]
      exact (h.handles.bound id a ha).trans_le hgrow
    · exact (h.known p hp).trans_le hgrow

end Step

theorem Fenced.run {size : TerminalSize} {scrollbackRows : Nat} {model : TerminalModel R}
    (hnew : TerminalModel.new em size scrollbackRows = .ok model) (cfg : ActorConfig)
    (events : List ActorEvent) : Fenced (Watched.run em cfg model events) :=
  List.foldlRecOn events _ (.start hnew) fun _ h e _ => h.step cfg e

/-- What acknowledgements can do in a session that is being watched. -/
structure AcknowledgementFence (em : Emulator R) (cfg : ActorConfig) (w : Watched R) : Prop where
  /-- a fence is released only by the acknowledgement of the revision made last -/
  released : ∀ (e : ActorEvent) (id : AttachmentId) (a a' : ActorAttachment) (r : Nat)
    (t : SyncTarget), w.rt.attachments[id]? = some a →
    (w.rt.step em cfg e).attachments[id]? = some a' → a.sync = .awaiting r t →
    (∀ r' t', a'.sync ≠ .awaiting r' t') →
      (∃ env, e = .command (.snapshotApplied id r) env) ∧ w.made.lookup a.handle = some r
  /-- any other acknowledgement keeps a fence, not a lower one, and admits nothing -/
  fenced : ∀ (env : Meanwhile) (id : AttachmentId) (a : ActorAttachment) (r revision : Nat)
    (t : SyncTarget), w.rt.attachments[id]? = some a → a.sync = .awaiting r t → revision ≠ r →
      (∃ a' r', (w.rt.step em cfg (.command (.snapshotApplied id revision) env)).attachments[id]? =
        some a' ∧ a'.handle = a.handle ∧ a'.sync = .awaiting r' t ∧ r ≤ r') ∧
      (w.rt.step em cfg (.command (.snapshotApplied id revision) env)).controller =
        w.rt.controller ∧
      ∀ env' id', (w.rt.step em cfg (.command (.snapshotApplied id revision) env)).writeInput env' id' =
        w.rt.writeInput env' id'
  /-- the last accepted acknowledgement, repeated while its revision is not awaited -/
  repeated : ∀ (env : Meanwhile) (id : AttachmentId) (a : ActorAttachment) (revision : Nat),
    w.rt.attachments[id]? = some a → w.accepted.lookup a.handle = some revision →
    (∀ t, a.sync ≠ .awaiting revision t) →
      w.rt.dispatch em cfg env (.snapshotApplied id revision) = (.ok (.snapshot none), w.rt)

theorem Fenced.released {w : Watched R} (h : Fenced w) (cfg : ActorConfig) {e : ActorEvent}
    {id : AttachmentId} {a a' : ActorAttachment} {r : Nat} {t : SyncTarget}
    (ha : w.rt.attachments[id]? = some a)
    (ha' : (w.rt.step em cfg e).attachments[id]? = some a') (hsync : a.sync = .awaiting r t)
    (hfree : ∀ r' t', a'.sync ≠ .awaiting r' t') :
    (∃ env, e = .command (.snapshotApplied id r) env) ∧ w.made.lookup a.handle = some r := by
  refine ⟨?_, (h.fence id a r t ha hsync).1⟩
  rcases (SessionRuntime.step_moves em cfg h.handles e).advance.evolves id a' ha' with ⟨b, hb, hc⟩ | hf
  · obtain rfl := Option.some.inj (ha.symm.trans hb)
    obtain ⟨env, he, -⟩ := hc.released hsync hfree
    exact ⟨env, he⟩
  · obtain ⟨revision, target, -, hs, -⟩ := hf.fence
    exact absurd hs (hfree revision target)

theorem Fenced.other {w : Watched R} (h : Fenced w) (cfg : ActorConfig) (env : Meanwhile)
    {id : AttachmentId} {a : ActorAttachment} {r revision : Nat} {t : SyncTarget}
    (ha : w.rt.attachments[id]? = some a) (hsync : a.sync = .awaiting r t) (hne : revision ≠ r) :
    ∃ a' r', (w.rt.step em cfg (.command (.snapshotApplied id revision) env)).attachments[id]? =
        some a' ∧ a'.handle = a.handle ∧ a'.sync = .awaiting r' t ∧ r ≤ r' ∧
      a'.everActive = a.everActive ∧
      w.rt.SameAuthority id (w.rt.step em cfg (.command (.snapshotApplied id revision) env)) := by
  simp only [SessionRuntime.step]
  split
  · exact ⟨a, r, ha, rfl, hsync, Nat.le_refl _, rfl, fun _ _ => rfl, rfl⟩
  · have hpublished := ((w.rt.meet_proceeds em cfg env 0).onward h.tracks).2
    exact SessionRuntime.snapshotApplied_other ha hsync hne
      ((h.fence id a r t ha hsync).2.trans hpublished)

/-- A client attaches, output arrives, it asks for the latest snapshot, more output arrives. -/
def fenceRun : List ActorEvent :=
  [.command (.prepareAttach (.localSameUid 0 0) false none .default) {},
    .driver [.ingest id [0x78], .deliver none],
    .command (.syncLatest 0 0) {},
    .driver [.ingest id [0x79], .deliver none]]

end Voytty.Daemon
