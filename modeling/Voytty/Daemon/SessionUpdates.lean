import Voytty.Daemon.ResumeIsolation

/-!
# What a session shows its attachments

Over every run of the session actor a revision stands for one surface, and a delta
leads whoever holds the surface of its base to the current one. So attachments that
come and go, and that were sent different updates, agree.
-/

namespace Voytty.Daemon

open Voytty.Lib Voytty.Terminal

variable {R : Type} {em : Emulator R}

/-- The delta in the answer to an update request. -/
def sentDelta : Except DaemonError (Option AttachmentUpdate) → Option TerminalSurfaceDelta
  | .ok (some (.delta delta)) => some delta
  | _ => none

/-- An update's delta is taken from the attachment's checkpoint, after the terminal's events. -/
theorem SessionRuntime.nextUpdate_delta {rt : SessionRuntime R} {env : Meanwhile}
    {id : AttachmentId} {delta : TerminalSurfaceDelta}
    (h : sentDelta (rt.nextUpdate em env id).1 = some delta) :
    ∃ a held, rt.attachments[id]? = some a ∧ a.terminal.checkpoint = some held ∧
      ((rt.meet em env 0).driver.model.capture (some held)).1 = .delta delta := by
  unfold SessionRuntime.nextUpdate at h
  split at h
  · cases h
  rename_i a ha
  split at h
  · cases h
  · cases h
  · dsimp only at h
    split at h
    · cases h
    · cases h
    · rename_i delta' terminal hsync
      obtain ⟨-, hcapture, -⟩ := TerminalDriver.syncChanged_some hsync
      cases h
      cases hheld : a.terminal.checkpoint with
      | none => rw [hheld] at hcapture; cases hcapture
      | some held => exact ⟨a, held, ha, hheld, hheld ▸ hcapture⟩
    · cases h

theorem capture_from {t : TerminalModel R} {c : TerminalCheckpoint} {delta : TerminalSurfaceDelta}
    (h : (t.capture (some c)).1 = .delta delta) : delta.fromRevision = c.revision := by
  unfold TerminalModel.capture TerminalModel.updateFromProjection at h
  dsimp only at h
  split at h
  · cases h
  · cases h; rfl

section Runs

variable (hem : em.Lawful) (cfg : ActorConfig)
  (hrows : cfg.limits.maxViewportRows ≤ ({} : ResourceLimits).maxViewportRows)
  (hcolumns : cfg.limits.maxViewportColumns ≤ ({} : ResourceLimits).maxViewportColumns)
  (size : TerminalSize) (hsize : cfg.Admits size) (scrollbackRows : Nat) (model : TerminalModel R)
  (hnew : TerminalModel.new em size scrollbackRows = .ok model)
include hem hrows hcolumns hsize hnew

theorem actor_presentable : EngineLaw em cfg.Admits Presentable ∧ ModelInv Presentable model := by
  have hlaw : EngineLaw em cfg.Admits Presentable :=
    { presentable_law hem with
      resize := fun e size hsize =>
        (presentable_law hem).resize e size (cfg.admits_within hrows hcolumns hsize) }
  exact ⟨hlaw, .new hlaw hnew
    (presentable_blank hem (cfg.admits_within hrows hcolumns hsize) scrollbackRows)⟩

/-- Among all that a session ever publishes or captures, a surface is valid, a later one has no
lower revision, and one revision is one surface. -/
theorem one_surface_per_revision (events : List ActorEvent) :
    (∀ t ∈ (Recorded.run em cfg model events).seen, t.snapshot.surface.Valid t.snapshot.revision) ∧
    ((Recorded.run em cfg model events).seen.Pairwise fun newer older =>
      older.publishedRevision ≤ newer.publishedRevision) ∧
    ∀ t ∈ (Recorded.run em cfg model events).seen,
      ∀ t' ∈ (Recorded.run em cfg model events).seen,
        t.publishedRevision = t'.publishedRevision → t.snapshot = t'.snapshot := by
  obtain ⟨hlaw, hinv⟩ := actor_presentable hem cfg hrows hcolumns size hsize _ model hnew
  have hheld := Recorded.Held.run em cfg model events
  have hvalid : ∀ t ∈ (Recorded.run em cfg model events).seen, ModelInv Presentable t :=
    fun t ht => ((hheld.origin t ht).advances hlaw hinv).1
  refine ⟨fun t ht => snapshot_valid (hvalid t ht), ?_, fun t ht t' ht' =>
    hheld.snapshot_unique (.live (new_ingress hnew).2.2.1) ht ht'⟩
  exact hheld.chain.imp_of_mem fun {newer older} _ holder hproceeds =>
    (hproceeds.advances hlaw (hvalid older holder)).2.revision

/-- A delta that an attachment is sent starts at a revision that was published, and leads the
surface of that revision to the current one. -/
theorem update_deltas_apply (events : List ActorEvent) (env : Meanwhile) (id : AttachmentId)
    (delta : TerminalSurfaceDelta)
    (hsent : sentDelta ((SessionRuntime.run em cfg model events).nextUpdate em env id).1 =
      some delta) :
    (∃ t ∈ (Recorded.run em cfg model events).seen, t.publishedRevision = delta.fromRevision) ∧
    ∀ t ∈ (Recorded.run em cfg model events).seen, t.publishedRevision = delta.fromRevision →
      delta.applyTo delta.fromRevision t.snapshot.surface =
        (.ok (), ((SessionRuntime.run em cfg model events).meet em env
          0).driver.model.snapshot.surface) := by
  obtain ⟨hlaw, hinv⟩ := actor_presentable hem cfg hrows hcolumns size hsize _ model hnew
  have hheld := Recorded.Held.run em cfg model events
  rw [← Recorded.run_runtime] at hsent ⊢
  obtain ⟨a, held, ha, hcheckpoint, hcapture⟩ := SessionRuntime.nextUpdate_delta hsent
  obtain ⟨t1, ht1, rfl⟩ := hheld.attachments id a held ha hcheckpoint
  have hfrom : t1.publishedRevision = delta.fromRevision := by
    rw [publishedRevision_eq, capture_from hcapture]
  refine ⟨⟨t1, ht1, hfrom⟩, fun t ht he => ?_⟩
  have happly := hheld.delta_applies (.live (new_ingress hnew).2.2.1) hlaw hinv ht ht1
    (he.trans hfrom.symm) (SessionRuntime.meet_proceeds em cfg _ env 0) hcapture
  exact hfrom ▸ happly.2.2

end Runs

theorem one_surface_per_revision_typewriter :
    ∃ model, TerminalModel.new typewriter ⟨1, 2⟩ 0 = .ok model ∧
      ∀ t ∈ (Recorded.run typewriter { sessionId := 0 } model resumeRun).seen,
        t.snapshot.surface.Valid t.snapshot.revision :=
  ⟨_, rfl, (one_surface_per_revision typewriter_lawful { sessionId := 0 } (Nat.le_refl _)
    (Nat.le_refl _) ⟨1, 2⟩ rfl 0 _ rfl resumeRun).1⟩

/-- A remote view is active when output arrives. -/
def activeRun : List ActorEvent :=
  [attachRemote false none, .command (.snapshotApplied 0 0) {},
    .driver [.ingest id [0x78], .deliver none]]

theorem update_deltas_apply_typewriter :
    ∃ model, TerminalModel.new typewriter ⟨1, 2⟩ 0 = .ok model ∧ ∃ delta,
      sentDelta ((SessionRuntime.run typewriter { sessionId := 0 } model activeRun).nextUpdate
        typewriter {} 0).1 = some delta ∧
      ∃ t ∈ (Recorded.run typewriter { sessionId := 0 } model activeRun).seen,
        t.publishedRevision = delta.fromRevision :=
  ⟨_, rfl, (Option.isSome_iff_exists.mp (by decide +kernel)).imp fun delta hsent =>
    ⟨hsent, (update_deltas_apply typewriter_lawful { sessionId := 0 } (Nat.le_refl _)
      (Nat.le_refl _) ⟨1, 2⟩ rfl 0 _ rfl activeRun {} 0 delta hsent).1⟩⟩

end Voytty.Daemon
