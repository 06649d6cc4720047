import Voytty.Daemon.SessionActor
import Voytty.Terminal.Publication

/-!
# What one event does to a session

An attachment found after an event was there before and changed in one of the ways
of `Change`, or it is the one a successful attach added (`Advance`). The terminal
moves only by calls of its driver (`Proceeds`), and a saved checkpoint stays, goes
or is replaced (`Passes`). Every command has one lemma, which says both (`Moves`).
-/

namespace Voytty.Daemon

open Voytty.Lib Voytty.Terminal Relation

variable {R : Type} {em : Emulator R}

/-! ## The terminal goes on -/

variable (em) in
/-- The terminal went from `t` to `t'` by calls of its driver. -/
def Proceeds (ok : TerminalSize → Prop) : TerminalModel R → TerminalModel R → Prop :=
  ReflTransGen fun t t' => ∃ op : ModelOp, op.Allowed ok ∧ t' = t.apply em op

section Way

variable {ok : TerminalSize → Prop} {t t' : TerminalModel R}

theorem Proceeds.call (op : ModelOp) (h : op.Allowed ok) : Proceeds em ok t (t.apply em op) :=
  .single ⟨op, h, rfl⟩

theorem Shown.publishes {seen : List (TerminalModel R)} (h : Shown t seen t') : Publishes t t' := by
  induction h with
  | nil => exact .inr rfl
  | snoc _ hb ih => exact Trans.trans ih (show Publishes _ _ from hb.later)

theorem Proceeds.publishes (h : Proceeds em ok t t') (ht : Tracks t t) :
    Tracks t' t' ∧ Publishes t t' := by
  induction h with
  | refl => exact ⟨ht, .inr rfl⟩
  | tail _ step ih =>
    obtain ⟨op, -, rfl⟩ := step
    obtain ⟨htracks, hpub⟩ := ih
    obtain ⟨hshown, hnext⟩ : Shown _ _ (TerminalModel.apply em _ op) ∧ _ := htracks.observe op
    exact ⟨hnext, Trans.trans hpub (Shown.publishes hshown)⟩

/-- The model advanced, so that its publication did not fall back. -/
def Onward (t t' : TerminalModel R) : Prop :=
  Tracks t t → Tracks t' t' ∧ t.publishedRevision ≤ t'.publishedRevision

theorem Proceeds.onward (h : Proceeds em ok t t') : Onward t t' := fun ht =>
  (h.publishes ht).imp_right fun hp => (Publishes.snapshot hp).1

end Way

namespace TerminalDriver

variable {ok : TerminalSize → Prop} (d : TerminalDriver R)

@[simp] theorem fail_model (error : DaemonError) : (d.fail error).model = d.model := by
  unfold fail
  split <;> rfl

theorem deliver_model (ptyError : Option DaemonError) : (d.deliver ptyError).model = d.model := by
  unfold deliver
  split
  · rfl
  split
  · exact fail_model _ _
  · rfl

theorem react_proceeds (event : DriverEvent) : Proceeds em ok d.model (d.react em event).model := by
  cases event with
  | ingest clock bytes =>
    have hcall : Proceeds em ok d.model (d.model.apply em (.ingest clock bytes)) := .call _ trivial
    simp only [react]
    split
    · exact .refl
    simp only [TerminalModel.apply] at hcall
    split <;> rename_i h <;> rw [h] at hcall
    · exact hcall
    · simpa using hcall
  | deliver ptyError =>
    rw [react, deliver_model]
    exact .refl
  | expire now =>
    simp only [react]
    split
    · exact .refl
    · exact Proceeds.call (.expire now) trivial
  | endOfFile =>
    simp only [react]
    split
    · exact .refl
    · exact Proceeds.call .finish trivial
  | fail error =>
    rw [react, fail_model]
    exact .refl

theorem meet_proceeds (events : List DriverEvent) :
    Proceeds em ok d.model (d.meet em events).model :=
  run_foldl TerminalDriver.model (fun d event => d.react_proceeds event) events d

theorem updateBaseColors_proceeds (base : TerminalColorProfile) (ptyError : Option DaemonError) :
    Proceeds em ok d.model (d.updateBaseColors base ptyError).2.model := by
  have hcall : Proceeds em ok d.model (d.model.apply em (.updateBaseColors base)) := .call _ trivial
  simp only [TerminalModel.apply] at hcall
  unfold updateBaseColors
  split <;> rename_i h <;> rw [h] at hcall
  · exact .refl
  split
  · simpa using hcall
  · exact hcall

theorem resize_proceeds {size : TerminalSize} (hsize : ok size) (ptyError : Option DaemonError) :
    Proceeds em ok d.model (d.resize em size ptyError).2.model := by
  have hcall : Proceeds em ok d.model (d.model.apply em (.resize size)) := .call _ hsize
  simp only [TerminalModel.apply] at hcall
  unfold resize
  split
  · exact .refl
  · exact .refl
  split <;> rename_i h <;> rw [h] at hcall
  · exact .refl
  · exact hcall

end TerminalDriver

/-! ## Snapshots made -/

def PreparedAttachment.revision (p : PreparedAttachment) : Nat :=
  match p.initialDelta with
  | some delta => delta.toRevision
  | none => p.snapshot.revision

namespace SessionRuntime

variable (rt : SessionRuntime R)

/-- The snapshot, or the delta of a resumed view, that a command made for an attachment to
acknowledge: the attachment's handle and the revision. A takeover leaves its snapshot pending. -/
def producedBy (command : SessionCommand) (out : Except DaemonError Reply × SessionRuntime R) :
    Option (Nat × Nat) :=
  match command, out.1 with
  | .prepareAttach .., .ok (.prepared p) => some (p.handle, p.revision)
  | .snapshotApplied id _, .ok (.snapshot s) | .syncLatest id _, .ok (.snapshot s) =>
    rt.attachments[id]?.bind fun a => s.map fun s => (a.handle, s.revision)
  | .nextUpdate id, .ok (.update (some (.snapshot s))) =>
    rt.attachments[id]?.map fun a => (a.handle, s.revision)
  | .takeover _ id _ _, .ok _ =>
    out.2.attachments[id]?.bind fun a => a.pendingColorSnapshot.map fun s => (a.handle, s.revision)
  | _, _ => none

variable (em) (cfg : ActorConfig) in
def produced : ActorEvent → Option (Nat × Nat)
  | .command command env =>
    if rt.ended then none else rt.producedBy command (rt.dispatch em cfg env command)
  | _ => none

end SessionRuntime

def madeFor (made : Option (Nat × Nat)) (handle : Nat) : Option Nat :=
  made.bind fun m => if m.1 = handle then some m.2 else none

/-! ## One attachment -/

/-- A command that has a full snapshot replace what the client holds. -/
inductive Resyncs : ActorEvent → AttachmentId → ActorAttachment → Prop where
  | stale {id : AttachmentId} {a : ActorAttachment} {expected revision : Nat} {target : SyncTarget}
      {env : Meanwhile} (awaits : a.sync = .awaiting expected target) (other : revision ≠ expected)
      (unseen : a.appliedSnapshotRevision ≠ some revision) :
      Resyncs (.command (.snapshotApplied id revision) env) id a
  | latest {id : AttachmentId} {a : ActorAttachment} {known : Nat} {env : Meanwhile} :
      Resyncs (.command (.syncLatest id known) env) id a

/-- A request for an update by a client that is not waiting. -/
structure UpdateDue (e : ActorEvent) (id : AttachmentId) (a : ActorAttachment) : Prop where
  asked : ∃ env, e = .command (.nextUpdate id) env
  idle : a.pendingColorSnapshot = none
  synchronized : ∀ revision target, a.sync ≠ .awaiting revision target

/-- A takeover that found the attachment ready. -/
structure TakesOver (e : ActorEvent) (id : AttachmentId) (a : ActorAttachment) : Prop where
  asked : ∃ principal key continuation env,
    e = .command (.takeover principal id key continuation) env
  ready : a.takeoverReady = true

/-- What one event can do to an attachment that stays, and the revision it made for it. The driver
is the one after the event. -/
inductive Change (driver : TerminalDriver R) :
    ActorEvent → AttachmentId → ActorAttachment → ActorAttachment → Option Nat → Prop where
  | kept {e : ActorEvent} {id : AttachmentId} {a : ActorAttachment} : Change driver e id a a none
  | colored {id : AttachmentId} {a : ActorAttachment} {sequence : Nat}
      {baseColors : TerminalColorProfile} {env : Meanwhile} :
      Change driver (.command (.updateColors id sequence baseColors) env) id a
        { a with baseColors, colorSequence := sequence } none
  | acknowledged {id : AttachmentId} {a : ActorAttachment} {revision : Nat} {target : SyncTarget}
      {env : Meanwhile} (awaits : a.sync = .awaiting revision target) :
      Change driver (.command (.snapshotApplied id revision) env) id a
        (a.applied revision) none
  | shown {id : AttachmentId} {a : ActorAttachment} {s : TerminalSurfaceSnapshot} {env : Meanwhile}
      (pending : a.pendingColorSnapshot = some s) :
      Change driver (.command (.nextUpdate id) env) id a { a with pendingColorSnapshot := none }
        (some s.revision)
  | advanced {e : ActorEvent} {id : AttachmentId} {a : ActorAttachment}
      {delta : TerminalSurfaceDelta} {terminal : TerminalAttachment} (due : UpdateDue e id a)
      (taken : driver.syncChanged a.terminal = (.ok (some (.delta delta)), terminal)) :
      Change driver e id a { a with terminal } none
  | fenced {e : ActorEvent} {id : AttachmentId} {a : ActorAttachment}
      (asked : Resyncs e id a ∨ UpdateDue e id a) (healthy : driver.failure = none) :
      Change driver e id a
        { a with
          pendingColorSnapshot := none
          terminal := ⟨some driver.model.checkpoint⟩
          sync := .awaiting driver.model.publishedRevision a.sync.target }
        (some driver.model.publishedRevision)
  | lost {e : ActorEvent} {id : AttachmentId} {a : ActorAttachment} {error : DaemonError}
      (asked : Resyncs e id a) (failed : driver.failure = some error) :
      Change driver e id a { a with pendingColorSnapshot := none, terminal := {} } none
  | finalized {e : ActorEvent} {id : AttachmentId} {a : ActorAttachment}
      (asked : (∃ env, e = .command (.finalUpdate id) env) ∨ ∃ reason drain, e = .finish reason drain) :
      Change driver e id a (SessionRuntime.finalTerminalUpdate driver a).2 none
  -- the attachment is the controller already, and its takeover has nothing to do
  | controlled {id : AttachmentId} {a : ActorAttachment} {principal : AttachmentPrincipal}
      {key : ReplayOperationKey} {continuation : Bool} {env : Meanwhile} :
      Change driver (.command (.takeover principal id key continuation) env) id a a
        (a.pendingColorSnapshot.map (·.revision))
  | promoted {e : ActorEvent} {id : AttachmentId} {a : ActorAttachment} {generation : Nat}
      (takes : TakesOver e id a) :
      Change driver e id a (a.promoted generation)
        (a.pendingColorSnapshot.map (·.revision))
  | recolored {e : ActorEvent} {id : AttachmentId} {a : ActorAttachment} {generation : Nat}
      {s : TerminalSurfaceSnapshot} (takes : TakesOver e id a) (healthy : driver.failure = none)
      (revision : s.revision = driver.model.publishedRevision) :
      Change driver e id a
        { a with
          pendingColorSnapshot := some s
          terminal := ⟨some driver.model.checkpoint⟩
          sync := .awaiting s.revision (.active generation) }
        (some s.revision)
  -- the snapshot for the new colours failed after the lease was handed over
  | halted {e : ActorEvent} {id : AttachmentId} {a : ActorAttachment} {generation : Nat}
      {error : DaemonError} (takes : TakesOver e id a) (failed : driver.failure = some error) :
      Change driver e id a
        { a.promoted generation with everActive := a.everActive, terminal := {} }
        none

theorem Change.fenced_update {driver : TerminalDriver R} {e : ActorEvent} {id : AttachmentId}
    {a : ActorAttachment} {s : TerminalSurfaceSnapshot} (due : UpdateDue e id a)
    (healthy : driver.failure = none) (hrev : s.revision = driver.model.publishedRevision) :
    Change driver e id a
      { a with
        terminal := ⟨some driver.model.checkpoint⟩
        sync := .awaiting s.revision a.sync.target }
      (some s.revision) := by
  have hc := Change.fenced (.inr due) healthy
  rw [← due.idle, ← hrev] at hc
  exact hc

structure Fresh (rt : SessionRuntime R) (e : ActorEvent) (made : Option (Nat × Nat))
    (id : AttachmentId) (a : ActorAttachment) (rt' : SessionRuntime R) : Prop where
  asked : ∃ principal takeover resume baseColors env,
    e = .command (.prepareAttach principal takeover resume baseColors) env
  handle : a.handle = rt.handles.length
  handles : rt'.handles.length = rt.handles.length + 1
  fence : ∃ revision target, made = some (a.handle, revision) ∧ a.sync = .awaiting revision target ∧
    (Tracks rt.driver.model rt.driver.model → revision ≤ rt'.driver.model.publishedRevision)
  pending : a.pendingColorSnapshot = none
  applied : a.appliedSnapshotRevision = none
  prepared : a.preparedSnapshotApplied = false
  everActive : a.everActive = false
  others : ∀ (id' : AttachmentId) (a' : ActorAttachment), rt'.attachments[id']? = some a' →
    id' ≠ id → rt.attachments[id']? = some a'

/-- Every attachment after the event is a changed or a fresh one. -/
def Evolves (rt : SessionRuntime R) (e : ActorEvent) (made : Option (Nat × Nat))
    (rt' : SessionRuntime R) : Prop :=
  ∀ (id : AttachmentId) (a' : ActorAttachment), rt'.attachments[id]? = some a' →
    (∃ a, rt.attachments[id]? = some a ∧
      Change rt'.driver e id a a' (madeFor made a.handle)) ∨ Fresh rt e made id a' rt'

/-- An event as a whole: the terminal goes on and no handle is forgotten. -/
structure Advance (rt : SessionRuntime R) (e : ActorEvent) (made : Option (Nat × Nat))
    (rt' : SessionRuntime R) : Prop where
  evolves : Evolves rt e made rt'
  model : Onward rt.driver.model rt'.driver.model
  handles : rt.handles.length ≤ rt'.handles.length

structure Handles (rt : SessionRuntime R) : Prop where
  bound : ∀ (id : AttachmentId) (a : ActorAttachment), rt.attachments[id]? = some a →
    a.handle < rt.handles.length
  unique : ∀ (id id' : AttachmentId) (a a' : ActorAttachment), rt.attachments[id]? = some a →
    rt.attachments[id']? = some a' → a.handle = a'.handle → id = id'

/-- Sizes the actor lets through. -/
def ActorConfig.Admits (cfg : ActorConfig) (size : TerminalSize) : Prop :=
  SessionRuntime.validateViewport cfg.limits size = .ok ()

namespace SessionRuntime

variable {cfg : ActorConfig}

/-- The checkpoint the active remote controller of `rt` leaves when it detaches for a resume. -/
inductive Leaves (cfg : ActorConfig) (rt : SessionRuntime R) :
    ActorEvent → RemoteResumeCheckpoint → Prop where
  | controller {id : AttachmentId} {env : Meanwhile} {a : ActorAttachment}
      {generation authGeneration : Nat} {device : DeviceId} {viewId : ResumeViewId}
      {held : TerminalCheckpoint} (running : rt.ended = false)
      (found : rt.attachments[id]? = some a)
      (controls : rt.controller.any (·.attachmentId = id) = true)
      (active : a.sync = .active generation)
      (remote : a.principal = .remoteEndpoint device authGeneration)
      (view : a.resumeViewId = some viewId) (holds : a.terminal = ⟨some held⟩) :
      Leaves cfg rt (.command (.detachForRemoteResume id) env)
        ⟨a.principal, cfg.sessionId, viewId, held.revision, a.terminal⟩

variable (em cfg) in
/-- What an event that is not an attach does to a saved checkpoint: it stays, it goes, or another
one is left. -/
structure Passes (rt : SessionRuntime R) (e : ActorEvent) (rt' : SessionRuntime R) : Prop where
  model : Proceeds em cfg.Admits rt.driver.model rt'.driver.model
  resume : ∀ c, rt'.resume = some c → rt.resume = some c ∨ Leaves cfg rt e c

theorem Passes.kept {rt rt' : SessionRuntime R} {e : ActorEvent}
    (hm : Proceeds em cfg.Admits rt.driver.model rt'.driver.model)
    (hr : rt'.resume = rt.resume) : Passes em cfg rt e rt' := ⟨hm, fun _ hc => .inl (hr ▸ hc)⟩

variable (em cfg) in
/-- What an event does to the attachments and to a saved checkpoint. -/
structure Moves (rt : SessionRuntime R) (e : ActorEvent) (made : Option (Nat × Nat))
    (rt' : SessionRuntime R) : Prop where
  advance : Advance rt e made rt'
  passes : Passes em cfg rt e rt'

end SessionRuntime

section Evolution

variable {rt rt' : SessionRuntime R} {e : ActorEvent} {made : Option (Nat × Nat)}

theorem madeFor_self (handle revision : Nat) : madeFor (some (handle, revision)) handle = some revision := by
  simp [madeFor]

theorem madeFor_other {handle handle' revision : Nat} (h : handle ≠ handle') :
    madeFor (some (handle, revision)) handle' = none := by
  simp [madeFor, h]

theorem Evolves.of_one (hh : Handles rt) {id : AttachmentId} {a x : ActorAttachment}
    (ha : rt.attachments[id]? = some a)
    (hothers : ∀ (id' : AttachmentId) (a' : ActorAttachment), rt'.attachments[id']? = some a' →
      id' ≠ id → rt.attachments[id']? = some a')
    (hx : ∀ a', rt'.attachments[id]? = some a' → a' = x)
    (hmade : ∀ m, made = some m → m.1 = a.handle)
    (hc : Change rt'.driver e id a x (madeFor made a.handle)) : Evolves rt e made rt' := by
  intro id' a' ha'
  refine .inl ?_
  by_cases hid : id' = id
  · subst hid
    obtain rfl := hx a' ha'
    exact ⟨a, ha, hc⟩
  · have hold := hothers id' a' ha' hid
    refine ⟨a', hold, ?_⟩
    -- the revision was made for the other attachment
    have hnone : madeFor made a'.handle = none := by
      cases hm : made with
      | none => rfl
      | some m =>
        refine madeFor_other fun heq => hid ?_
        exact hh.unique id' id a' a hold ha (heq.symm.trans (hmade m hm))
    rw [hnone]
    exact .kept

end Evolution

/-! ## Removal -/

namespace SessionRuntime

/-- Every attachment is one of `rt'`. -/
def Within (rt rt' : SessionRuntime R) : Prop :=
  ∀ (id : AttachmentId) (a : ActorAttachment), rt.attachments[id]? = some a →
    rt'.attachments[id]? = some a

theorem Within.refl {rt : SessionRuntime R} : rt.Within rt := fun _ _ h => h

/-- Attachments may be gone and handles marked; the terminal and a saved checkpoint stay. -/
structure Pruned (rt rt' : SessionRuntime R) : Prop where
  within : rt'.Within rt
  model : rt'.driver.model = rt.driver.model
  handles : rt'.handles.length = rt.handles.length
  resume : rt'.resume = rt.resume

variable {rt rt' rt'' : SessionRuntime R}

theorem Pruned.refl (rt : SessionRuntime R) : Pruned rt rt := ⟨.refl, rfl, rfl, rfl⟩

theorem Pruned.trans (h : Pruned rt rt') (h' : Pruned rt' rt'') : Pruned rt rt'' :=
  ⟨fun id a ha => h.within id a (h'.within id a ha), h'.model.trans h.model,
    h'.handles.trans h.handles, h'.resume.trans h.resume⟩

theorem Pruned.foldl {α : Type} {f : SessionRuntime R → α → SessionRuntime R}
    (h : ∀ rt a, Pruned rt (f rt a)) (as : List α) (rt : SessionRuntime R) :
    Pruned rt (as.foldl f rt) :=
  List.foldlRecOn as f (.refl rt) fun _ hb a _ => hb.trans (h _ a)

variable (rt)

theorem reconcileEffectTarget_pruned : Pruned rt rt.reconcileEffectTarget :=
  ⟨.refl, rfl, rfl, rfl⟩

theorem markDetached_pruned (handle : Nat) : Pruned rt (rt.markDetached handle) :=
  ⟨.refl, rfl, List.length_modify .., rfl⟩

theorem erase_within (id : AttachmentId) :
    Within { rt with attachments := rt.attachments.erase id } rt := fun id' a h => by
  rw [OrdMap.get_erase] at h
  split at h
  · cases h
  · exact h

theorem removeAttachment_pruned (id : AttachmentId) : Pruned rt (rt.removeAttachment id) := by
  unfold removeAttachment
  split <;> exact ⟨rt.erase_within id, rfl, rfl, rfl⟩

theorem reapDetached_pruned : Pruned rt rt.reapDetached := by
  unfold reapDetached
  dsimp only
  split
  · exact .refl rt
  · exact (Pruned.foldl removeAttachment_pruned _ rt).trans (reconcileEffectTarget_pruned _)

/-- A principal detach takes its own device's checkpoint with it, and no other. -/
theorem detachRemotePrincipal_pruned (device : DeviceId) :
    Pruned (if rt.resume.any fun c => isRemote device c.principal then { rt with resume := none }
      else rt) (rt.detachRemotePrincipal device).2 := by
  unfold detachRemotePrincipal
  dsimp only
  generalize (if rt.resume.any fun c => isRemote device c.principal then { rt with resume := none }
    else rt) = base
  have h := (Pruned.foldl markDetached_pruned ((rt.attachments.toList.filter fun p =>
    isRemote device p.2.principal).map (·.2.handle)) base).trans
    (Pruned.foldl removeAttachment_pruned ((rt.attachments.toList.filter fun p =>
      isRemote device p.2.principal).map (·.1)) _)
  split
  · exact h
  · exact h.trans (reconcileEffectTarget_pruned _)

end SessionRuntime

/-! ## Synchronization -/

theorem snapshot_revision (t : TerminalModel R) : t.snapshot.revision = t.publishedRevision :=
  t.publishedRevision_view.symm

namespace TerminalDriver

variable {d : TerminalDriver R}

theorem fullSync_healthy (h : d.failure = none) :
    d.fullSync = (.ok d.model.snapshot, ⟨some d.model.checkpoint⟩) := by
  have hr := snapshot_revision d.model
  unfold TerminalModel.snapshot at hr ⊢
  simp only [fullSync, syncLatest, h, TerminalModel.capture, TerminalModel.updateFromProjection,
    ← hr]

theorem fullSync_failed {e : DaemonError} (h : d.failure = some e) : d.fullSync = (.error e, {}) := by
  simp only [fullSync, syncLatest, h]

theorem syncChanged_some {a terminal : TerminalAttachment} {result : TerminalSurfaceDeltaResult}
    (h : d.syncChanged a = (.ok (some result), terminal)) :
    d.failure = none ∧ (d.model.capture a.checkpoint).1 = result ∧
      terminal = ⟨some d.model.checkpoint⟩ := by
  unfold syncChanged at h
  split at h
  · cases h
  · rename_i hnone
    split at h
    · cases h
    · obtain ⟨hr, ht⟩ := Prod.mk.inj h
      exact ⟨hnone, Option.some.inj (Except.ok.inj hr), ht.symm⟩

theorem capture_resync {t : TerminalModel R} {checkpoint : Option TerminalCheckpoint}
    {s : TerminalSurfaceSnapshot} (h : (t.capture checkpoint).1 = .resync s) : s = t.snapshot := by
  have hr := snapshot_revision t
  unfold TerminalModel.snapshot at hr ⊢
  simp only [TerminalModel.capture, TerminalModel.updateFromProjection, ← hr] at h
  split at h
  · exact (TerminalSurfaceDeltaResult.resync.inj h).symm
  · split at h
    · exact (TerminalSurfaceDeltaResult.resync.inj h).symm
    · cases h

theorem capture_delta {t : TerminalModel R} {checkpoint : Option TerminalCheckpoint}
    {delta : TerminalSurfaceDelta} (h : (t.capture checkpoint).1 = .delta delta) :
    delta.toRevision = t.publishedRevision ∧
      ∃ held, checkpoint = some held ∧ delta.fromRevision = held.revision := by
  simp only [TerminalModel.capture, TerminalModel.updateFromProjection] at h
  split at h
  · cases h
  · rename_i held
    split at h
    · cases h
    · obtain rfl := TerminalSurfaceDeltaResult.delta.inj h
      exact ⟨rfl, held, rfl, rfl⟩

end TerminalDriver

namespace SessionRuntime

variable {rt rt' rt0 : SessionRuntime R} {cfg : ActorConfig} {e : ActorEvent} {env : Meanwhile}
  {id : AttachmentId} {a x : ActorAttachment} {generation : Nat} {key : ReplayOperationKey}
  {principal : AttachmentPrincipal} {continuation : Bool} {resume : Option RemoteResumeRequest}

variable (em cfg) in
theorem meet_proceeds (rt : SessionRuntime R) (env : Meanwhile) (n : Nat) :
    Proceeds em cfg.Admits rt.driver.model (rt.meet em env n).driver.model :=
  rt.driver.meet_proceeds _

theorem get_setAttachment (rt : SessionRuntime R) (id id' : AttachmentId) (a : ActorAttachment) :
    (rt.setAttachment id a).attachments[id']? =
      if id = id' then some a else rt.attachments[id']? := OrdMap.get_insert

theorem moves_of_within (hw : rt'.Within rt) (hp : Passes em cfg rt e rt')
    (hl : rt'.handles.length = rt.handles.length) : Moves em cfg rt e none rt' :=
  ⟨⟨fun id a ha => .inl ⟨a, hw id a ha, .kept⟩, hp.model.onward, hl.ge⟩, hp⟩

theorem moves_refl (rt : SessionRuntime R) (e : ActorEvent) : Moves em cfg rt e none rt :=
  moves_of_within .refl (.kept .refl rfl) rfl

theorem moves_of_set {made : Option (Nat × Nat)} (hh : Handles rt)
    (ha : rt.attachments[id]? = some a) (hsub : rt0.Within rt)
    (hset : rt'.attachments = (rt0.setAttachment id x).attachments) (hp : Passes em cfg rt e rt')
    (hl : rt'.handles.length = rt.handles.length) (hmade : ∀ m, made = some m → m.1 = a.handle)
    (hc : Change rt'.driver e id a x (madeFor made a.handle)) : Moves em cfg rt e made rt' := by
  refine ⟨⟨.of_one hh ha (fun id' a' ha' hid => ?_) (fun a' ha' => ?_) hmade hc, hp.model.onward,
    hl.ge⟩, hp⟩
  · rw [hset, get_setAttachment, if_neg (Ne.symm hid)] at ha'
    exact hsub id' a' ha'
  · rw [hset, get_setAttachment, if_pos rfl] at ha'
    exact (Option.some.inj ha').symm

theorem Pruned.proceeds (h : Pruned rt rt') :
    Proceeds em cfg.Admits rt.driver.model rt'.driver.model := by
  rw [h.model]
  exact .refl

theorem Pruned.moves (h : Pruned rt rt') : Moves em cfg rt e none rt' :=
  moves_of_within h.within (.kept h.proceeds h.resume) h.handles

theorem length_setLifecycle (rt : SessionRuntime R) (handle : Nat)
    (lifecycle : AttachmentLifecycle) :
    (rt.setLifecycle handle lifecycle).handles.length = rt.handles.length :=
  List.length_modify ..

variable (em cfg env) in
theorem resynchronize_moves (hh : Handles rt) (ha : rt.attachments[id]? = some a)
    (asked : Resyncs e id a) :
    Moves em cfg rt e ((rt.resynchronize em env id a).1.toOption.map fun s => (a.handle, s.revision))
      (rt.resynchronize em env id a).2 := by
  have hm := rt.meet_proceeds em cfg env 0
  unfold resynchronize
  dsimp only
  cases hf : (rt.meet em env 0).driver.failure with
  | none =>
    rw [TerminalDriver.fullSync_healthy hf]
    refine moves_of_set hh ha .refl rfl (.kept hm rfl) (length_setLifecycle ..) (by simp) ?_
    rw [Except.toOption, Option.map_some, madeFor_self, snapshot_revision]
    exact .fenced (.inl asked) hf
  | some error =>
    rw [TerminalDriver.fullSync_failed hf]
    exact moves_of_set hh ha .refl rfl (.kept hm rfl) rfl (by simp) (.lost asked hf)

/-! ## The commands -/

theorem producedBy_snapshotApplied (rt : SessionRuntime R) (ha : rt.attachments[id]? = some a)
    (revision : Nat) (out : Except DaemonError (Option TerminalSurfaceSnapshot) × SessionRuntime R) :
    rt.producedBy (.snapshotApplied id revision) (respond .snapshot out) =
      out.1.toOption.join.map fun s => (a.handle, s.revision) := by
  obtain ⟨_ | _, _⟩ := out <;> simp [producedBy, respond, Except.map, Except.toOption, ha]

theorem snapshotApplied_moves (hh : Handles rt) (revision : Nat) :
    Moves em cfg rt (.command (.snapshotApplied id revision) env)
      (rt.producedBy (.snapshotApplied id revision)
        (respond .snapshot (rt.snapshotApplied em env id revision)))
      (rt.snapshotApplied em env id revision).2 := by
  cases ha : rt.attachments[id]? with
  | none =>
    simp only [snapshotApplied, ha]
    exact moves_refl rt _
  | some a =>
    rw [producedBy_snapshotApplied rt ha]
    unfold snapshotApplied
    simp only [ha]
    split
    · rename_i expected target hsync
      split
      · exact moves_refl rt _
      rename_i hrepeat
      split
      · rename_i hother
        have hadv := resynchronize_moves em cfg env hh ha
          (e := .command (.snapshotApplied id revision) env)
          (.stale hsync hother fun h => hrepeat ⟨hother, h⟩)
        split <;> rename_i hr <;> rw [hr] at hadv <;> exact hadv
      · rename_i heq
        obtain rfl := not_not.mp heq
        exact moves_of_set hh ha .refl rfl (.kept .refl rfl) (length_setLifecycle ..) (by simp [Except.toOption])
          (.acknowledged hsync)
    · split
      · exact moves_refl rt _
      · exact moves_refl rt _

theorem syncLatest_moves (hh : Handles rt) (known : Nat) :
    Moves em cfg rt (.command (.syncLatest id known) env)
      (rt.producedBy (.syncLatest id known)
        (respond (fun s => .snapshot (some s)) (rt.syncLatest em env id)))
      (rt.syncLatest em env id).2 := by
  unfold syncLatest
  cases ha : rt.attachments[id]? with
  | none => exact moves_refl rt _
  | some a =>
    have hadv := resynchronize_moves em cfg env hh ha (e := .command (.syncLatest id known) env)
      .latest
    dsimp only
    cases hr : (rt.resynchronize em env id a).1 <;> rw [hr] at hadv <;>
      simpa [producedBy, respond, hr, ha, Except.map, Except.toOption] using hadv

theorem nextUpdate_moves (hh : Handles rt) :
    Moves em cfg rt (.command (.nextUpdate id) env)
      (rt.producedBy (.nextUpdate id) (respond .update (rt.nextUpdate em env id)))
      (rt.nextUpdate em env id).2 := by
  have hm := rt.meet_proceeds em cfg env 0
  unfold nextUpdate
  cases ha : rt.attachments[id]? with
  | none => exact moves_refl rt _
  | some a =>
    dsimp only
    split
    · rename_i s hpending
      have hmade : rt.producedBy (.nextUpdate id) (respond .update (.ok (some (.snapshot s)),
          rt.setAttachment id { a with pendingColorSnapshot := none })) =
          some (a.handle, s.revision) := by
        simp [producedBy, respond, Except.map, ha]
      rw [hmade]
      refine moves_of_set hh ha .refl rfl (.kept .refl rfl) rfl (by simp) ?_
      rw [madeFor_self]
      exact .shown hpending
    · exact moves_refl rt _
    · rename_i hpending hsync
      have hdue : UpdateDue (.command (.nextUpdate id) env) id a :=
        ⟨⟨env, rfl⟩, hpending, fun r t h => hsync r t h⟩
      split <;> rename_i hs
      · exact moves_of_within .refl (.kept hm rfl) rfl
      · exact moves_of_within .refl (.kept hm rfl) rfl
      · exact moves_of_set hh ha .refl rfl (.kept hm rfl) rfl (by simp [producedBy, respond, Except.map])
          (.advanced hdue hs)
      · obtain ⟨healthy, hcapture, rfl⟩ := TerminalDriver.syncChanged_some hs
        have hrev := TerminalDriver.capture_resync hcapture ▸ snapshot_revision _
        simp only [producedBy, respond, Except.map, ha, Option.map_some, hrev]
        refine moves_of_set hh ha .refl rfl (.kept hm rfl) (length_setLifecycle ..) (by simp) ?_
        rw [madeFor_self, ← hrev]
        exact .fenced_update hdue healthy hrev

theorem finalUpdate_moves (hh : Handles rt) :
    Moves em cfg rt (.command (.finalUpdate id) env) none (rt.finalUpdate em env id).2 := by
  unfold finalUpdate
  cases ha : rt.attachments[id]? with
  | none => exact moves_refl rt _
  | some a =>
    exact moves_of_set hh ha .refl rfl (.kept (rt.meet_proceeds em cfg env 0) rfl) rfl (by simp)
      (.finalized (.inl ⟨env, rfl⟩))

theorem updateColors_moves (hh : Handles rt) (sequence : Nat) (baseColors : TerminalColorProfile) :
    Moves em cfg rt (.command (.updateColors id sequence baseColors) env) none
      (rt.updateColors em env id sequence baseColors).2 := by
  have hm := (rt.meet_proceeds em cfg env 0).trans
    ((rt.meet em env 0).driver.updateBaseColors_proceeds baseColors env.ptyError)
  unfold updateColors
  cases ha : rt.attachments[id]? with
  | none => split <;> first | exact moves_refl rt _ | simp_all
  | some a =>
    split
    · exact moves_refl rt _
    · exact moves_refl rt _
    rename_i hsome
    obtain rfl := Option.some.inj hsome
    split
    · exact moves_refl rt _
    dsimp only
    split <;> rename_i hu <;> rw [hu] at hm
    · exact moves_of_within .refl (.kept hm rfl) rfl
    · exact moves_of_set hh ha .refl rfl (.kept hm rfl) rfl (by simp) .colored

theorem resize_moves (size : TerminalSize) :
    Moves em cfg rt (.command (.resize id size) env) none (rt.resize em cfg env id size).2 := by
  unfold resize
  split
  · exact moves_refl rt _
  · exact moves_refl rt _
  rename_i hsize _
  have hm := (rt.meet_proceeds em cfg env 0).trans
    ((rt.meet em env 0).driver.resize_proceeds hsize env.ptyError)
  dsimp only
  split <;> rename_i hr <;> rw [hr] at hm <;> exact moves_of_within .refl (.kept hm rfl) rfl

/-! ## Detaching -/

theorem detachForRemoteResume_leaves (hlive : rt.ended = false)
    (ha : rt.attachments[id]? = some a) {c : RemoteResumeCheckpoint}
    (h : (rt.detachForRemoteResume cfg id).2.resume = some c) :
    Leaves cfg rt (.command (.detachForRemoteResume id) env) c := by
  unfold detachForRemoteResume at h
  simp only [ha] at h
  dsimp only [reconcileEffectTarget] at h
  split at h
  · rename_i hcontrols hactive hremote hview hholds
    obtain rfl := Option.some.inj h
    exact .controller hlive ha hcontrols hactive hremote hview (by rw [← hholds])
  · cases h

theorem detachForRemoteResume_moves (hlive : rt.ended = false) :
    Moves em cfg rt (.command (.detachForRemoteResume id) env) none
      (rt.detachForRemoteResume cfg id).2 := by
  cases ha : rt.attachments[id]? with
  | none =>
    simp only [detachForRemoteResume, ha]
    exact moves_refl rt _
  | some a =>
    have hleaves : ∀ c, (rt.detachForRemoteResume cfg id).2.resume = some c →
        Leaves cfg rt (.command (.detachForRemoteResume id) env) c :=
      fun c => detachForRemoteResume_leaves hlive ha
    have hp := (rt.markDetached_pruned a.handle).trans (removeAttachment_pruned _ id)
    simp only [detachForRemoteResume, ha] at hleaves ⊢
    exact moves_of_within hp.within ⟨hp.proceeds, fun c hc => .inr (hleaves c hc)⟩ hp.handles

theorem detachRemotePrincipal_moves (device : DeviceId) :
    Moves em cfg rt e none (rt.detachRemotePrincipal device).2 := by
  have hp := rt.detachRemotePrincipal_pruned device
  split at hp
  · refine moves_of_within hp.within ⟨hp.proceeds, fun c hc => ?_⟩ hp.handles
    cases hp.resume.symm.trans hc
  · exact hp.moves

/-! ## Takeover -/

theorem promoted_pending (a : ActorAttachment) (generation : Nat) :
    (a.promoted generation).pendingColorSnapshot = a.pendingColorSnapshot ∧
      (a.promoted generation).handle = a.handle := by
  unfold ActorAttachment.promoted
  split <;> exact ⟨rfl, rfl⟩

variable (generation key) in
theorem installController_within (hatt : rt0.attachments = rt.attachments) :
    (rt0.installController id generation key).Within rt := by
  intro id' a' h
  rw [← hatt]
  unfold installController at h
  dsimp only at h
  split at h
  · split at h
    · exact rt0.erase_within _ id' a' h
    · exact h
  · exact h

theorem notifyDisplaced_same (rt : SessionRuntime R) (handle : Option Nat) (generation : Nat) :
    (rt.notifyDisplaced handle generation).attachments = rt.attachments ∧
      (rt.notifyDisplaced handle generation).driver = rt.driver ∧
      (rt.notifyDisplaced handle generation).handles.length = rt.handles.length ∧
      (rt.notifyDisplaced handle generation).resume = rt.resume := by
  unfold notifyDisplaced
  split
  · exact ⟨rfl, rfl, length_setLifecycle .., rfl⟩
  · exact ⟨rfl, rfl, rfl, rfl⟩

theorem producedBy_takeover (hx : rt'.attachments[id]? = some x) :
    rt.producedBy (.takeover principal id key continuation)
        (respond (fun _ : Unit => .done) (.ok (), rt')) =
      x.pendingColorSnapshot.map fun s => (x.handle, s.revision) := by
  simp [producedBy, respond, Except.map, hx]

theorem madeFor_pending (pending : Option TerminalSurfaceSnapshot) (handle : Nat) :
    madeFor (pending.map fun s => (handle, s.revision)) handle = pending.map (·.revision) := by
  cases pending with
  | none => rfl
  | some s => exact madeFor_self handle s.revision

theorem moves_of_takeover (generation : Nat) (hh : Handles rt) (ha : rt.attachments[id]? = some a)
    (hatt : rt0.attachments = rt.attachments)
    (hset : rt'.attachments = ((rt0.installController id generation key).setAttachment id x).attachments)
    (hp : Passes em cfg rt e rt') (hl : rt'.handles.length = rt.handles.length)
    (hx : x.handle = a.handle)
    (hc : Change rt'.driver e id a x (x.pendingColorSnapshot.map (·.revision))) :
    Moves em cfg rt e (rt.producedBy (.takeover principal id key continuation)
      (respond (fun _ => .done) (.ok (), rt'))) rt' := by
  have hget : rt'.attachments[id]? = some x := by rw [hset, get_setAttachment, if_pos rfl]
  rw [producedBy_takeover hget]
  refine moves_of_set hh ha (installController_within generation key hatt) hset hp hl
    (fun m hmade => ?_) ?_
  · obtain ⟨s, -, rfl⟩ := Option.map_eq_some_iff.mp hmade
    exact hx
  · rw [← hx, madeFor_pending]
    exact hc

theorem commitTakeover_moves {changed : Bool} (hh : Handles rt)
    (ha : rt.attachments[id]? = some a) (takes : TakesOver e id a)
    (hatt : rt0.attachments = rt.attachments) (hl : rt0.handles.length = rt.handles.length)
    (hm : Proceeds em cfg.Admits rt.driver.model rt0.driver.model) (hr : rt0.resume = rt.resume) :
    Moves em cfg rt e
      (rt.producedBy (.takeover principal id key continuation)
        (respond (fun _ => .done) (rt0.commitTakeover em env id a generation key changed)))
      (rt0.commitTakeover em env id a generation key changed).2 := by
  have hm1 : Proceeds em cfg.Admits rt.driver.model _ :=
    hm.trans ((rt0.installController id generation key).meet_proceeds em cfg env 1)
  obtain ⟨hpending, hhandle⟩ := promoted_pending a generation
  unfold commitTakeover
  dsimp only
  split
  · cases hf : ((rt0.installController id generation key).meet em env 1).driver.failure with
    | none =>
      rw [TerminalDriver.fullSync_healthy hf]
      obtain ⟨hsame, hdriver, hlength, hresume⟩ := notifyDisplaced_same
        (((rt0.installController id generation key).meet em env 1).raiseFence id
          { a.promoted generation with
            everActive := a.everActive
            pendingColorSnapshot := some _ } _ _ _).reconcileEffectTarget (rt0.displaced id)
        generation
      refine moves_of_takeover generation hh ha hatt (hsame.trans rfl)
        (.kept (by rw [hdriver]; exact hm1) (hresume.trans hr))
        (hlength.trans ((length_setLifecycle ..).trans hl)) hhandle ?_
      rw [hdriver]
      have hshape : ∀ (s : TerminalSurfaceSnapshot) (terminal : TerminalAttachment),
          ({ a.promoted generation with
            everActive := a.everActive
            pendingColorSnapshot := some s
            terminal
            sync := .awaiting s.revision (.active generation) } : ActorAttachment) =
          { a with
            pendingColorSnapshot := some s
            terminal
            sync := .awaiting s.revision (.active generation) } := fun s terminal => by
        unfold ActorAttachment.promoted
        split <;> rfl
      rw [hshape]
      exact .recolored takes hf (snapshot_revision _)
    | some error =>
      rw [TerminalDriver.fullSync_failed hf]
      exact moves_of_set hh ha (installController_within generation key hatt) rfl (.kept hm1 hr) hl
        (by simp [producedBy, respond, Except.map]) (.halted takes hf)
  · obtain ⟨hsame, hdriver, hlength, hresume⟩ := notifyDisplaced_same
      (((rt0.installController id generation key).setAttachment id
        (a.promoted generation)).reconcileEffectTarget) (rt0.displaced id) generation
    have hmodel := congrArg TerminalDriver.model hdriver
    change _ = rt0.driver.model at hmodel
    rw [← hmodel] at hm
    split
    · refine moves_of_takeover generation hh ha hatt (hsame.trans rfl)
        (.kept hm (hresume.trans hr)) ((length_setLifecycle ..).trans (hlength.trans hl)) hhandle ?_
      rw [hpending]
      exact .promoted takes
    · refine moves_of_takeover generation hh ha hatt (hsame.trans rfl)
        (.kept hm (hresume.trans hr)) (hlength.trans hl) hhandle ?_
      rw [hpending]
      exact .promoted takes

theorem moves_of_controlled (hh : Handles rt) (ha : rt.attachments[id]? = some a)
    (hp : Pruned rt rt') (ha' : rt'.attachments[id]? = some a) (principal : AttachmentPrincipal)
    (key : ReplayOperationKey) (continuation : Bool) :
    Moves em cfg rt (.command (.takeover principal id key continuation) env)
      (rt.producedBy (.takeover principal id key continuation)
        (respond (fun _ => .done) (.ok (), rt'))) rt' := by
  rw [producedBy_takeover ha']
  refine ⟨⟨.of_one (x := a) hh ha (fun id' a' h _ => hp.within id' a' h) (fun a' h => ?_)
    (fun m hmade => ?_) ?_, (hp.proceeds : Proceeds em cfg.Admits _ _).onward, hp.handles.ge⟩,
    hp.moves.passes⟩
  · exact Option.some.inj (h.symm.trans ha')
  · obtain ⟨s, -, rfl⟩ := Option.map_eq_some_iff.mp hmade
    rfl
  · rw [madeFor_pending]
    exact .controlled

theorem takeover_moves (hh : Handles rt) (principal : AttachmentPrincipal)
    (key : ReplayOperationKey) (continuation : Bool) :
    Moves em cfg rt (.command (.takeover principal id key continuation) env)
      (rt.producedBy (.takeover principal id key continuation)
        (respond (fun _ => .done) (rt.takeover em env principal id key continuation)))
      (rt.takeover em env principal id key continuation).2 := by
  unfold takeover
  cases ha : rt.attachments[id]? with
  | none => exact moves_refl rt _
  | some a =>
    dsimp only
    split
    · exact moves_refl rt _
    split
    · split
      · exact moves_refl rt _
      · refine moves_of_controlled hh ha ?_ ?_ principal key _ <;> cases continuation
        all_goals first | exact ha | exact ⟨.refl, rfl, rfl, rfl⟩
    split
    · exact moves_refl rt _
    rename_i hready
    split
    · exact moves_refl rt _
    split
    · exact moves_refl rt _
    have hm : Proceeds em cfg.Admits rt.driver.model _ := (rt.meet_proceeds em cfg env 0).trans
      ((rt.meet em env 0).driver.updateBaseColors_proceeds a.baseColors env.ptyError)
    split <;> rename_i hu <;>
      change (rt.meet em env 0).driver.updateBaseColors _ _ = _ at hu <;> rw [hu] at hm
    · exact moves_of_within .refl (.kept hm rfl) rfl
    · exact commitTakeover_moves hh ha
        ⟨⟨principal, key, continuation, env, rfl⟩, by simpa using hready⟩ rfl rfl hm rfl

/-! ## The end -/

theorem finishRuntime_moves (reason : SessionEndReason) (drain : List DriverEvent) :
    Moves em cfg rt (.finish reason drain) none (rt.finishRuntime em reason drain) := by
  have hm : Proceeds em cfg.Admits rt.driver.model (rt.finishRuntime em reason drain).driver.model :=
    TerminalDriver.meet_proceeds { rt.driver with effects := rt.driver.effects.setTarget none } drain
  refine ⟨⟨fun id a' ha' => .inl ?_, hm.onward, ?_⟩, hm, fun c hc => by cases hc⟩
  · change (rt.attachments.map fun _ a =>
      (finalTerminalUpdate (rt.finishRuntime em reason drain).driver a).2)[id]? = some a' at ha'
    rw [Std.TreeMap.getElem?_map] at ha'
    obtain ⟨a, ha, rfl⟩ := Option.map_eq_some_iff.mp ha'
    exact ⟨a, ha, .finalized (.inr ⟨reason, drain, rfl⟩)⟩
  · unfold finishRuntime
    refine List.foldlRecOn (motive := fun (handles : List AttachmentHandle) =>
      rt.handles.length ≤ handles.length) _ _ (Nat.le_refl _) fun handles h p _ => ?_
    rwa [List.length_modify]

end SessionRuntime

end Voytty.Daemon
