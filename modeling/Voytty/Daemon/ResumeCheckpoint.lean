import Voytty.Daemon.SessionActorSteps
import Voytty.Terminal.Convergence

/-!
# The checkpoint of a remote view

A remote controller that loses its transport leaves its checkpoint behind, and the
next attach may continue from it (`RemoteResumeCheckpoint`). `Attaches` inverts an
attach and says what it captured. With the other commands this gives what any event
does to the attachments and to the saved checkpoint (`step_moves`).
-/

namespace Voytty.Daemon

open Voytty.Lib Voytty.Terminal Relation

variable {R : Type} {em : Emulator R}

theorem Proceeds.advances {ok : TerminalSize → Prop} {t t' : TerminalModel R}
    {P : AlacrittyEngine R → Prop} (law : EngineLaw em ok P)
    (h : Proceeds em ok t t') (ht : ModelInv P t) : ModelInv P t' ∧ Advances t t' := by
  induction h with
  | refl => exact ⟨ht, .refl t⟩
  | tail _ step ih =>
    obtain ⟨op, hop, rfl⟩ := step
    obtain ⟨hinv, hadv⟩ := ih.1.apply law hop
    exact ⟨hinv, ih.2.trans hadv⟩

/-! ## Checkpoints of attachments -/

theorem finalTerminalUpdate_terminal (driver : TerminalDriver R) (a : ActorAttachment) :
    (SessionRuntime.finalTerminalUpdate driver a).2.terminal = a.terminal ∨
      (SessionRuntime.finalTerminalUpdate driver a).2.terminal =
        ⟨some driver.model.checkpoint⟩ := by
  unfold SessionRuntime.finalTerminalUpdate TerminalDriver.syncChanged
  cases driver.failure with
  | some e => exact .inl rfl
  | none =>
    by_cases hheld : a.terminal.checkpoint.any (·.revision = driver.model.publishedRevision) = true
    · simp [hheld]
    · exact .inr (by simp [hheld, TerminalModel.capture])

theorem Change.terminal {driver : TerminalDriver R} {e : ActorEvent} {id : AttachmentId}
    {a a' : ActorAttachment} {made : Option Nat} (h : Change driver e id a a' made) :
    a'.terminal = a.terminal ∨ a'.terminal = ⟨some driver.model.checkpoint⟩ ∨ a'.terminal = {} := by
  cases h with
  | acknowledged _ =>
    refine .inl ?_
    unfold ActorAttachment.applied
    dsimp only
    split <;> rfl
  | advanced _ taken => exact .inr (.inl (TerminalDriver.syncChanged_some taken).2.2)
  | finalized _ => exact (finalTerminalUpdate_terminal driver a).imp_right .inl
  | promoted _ =>
    refine .inl ?_
    unfold ActorAttachment.promoted
    split <;> rfl
  | fenced _ _ => exact .inr (.inl rfl)
  | recolored _ _ _ => exact .inr (.inl rfl)
  | lost _ _ => exact .inr (.inr rfl)
  | halted _ _ => exact .inr (.inr rfl)
  | _ => exact .inl rfl

namespace SessionRuntime

variable {rt rt' rt0 : SessionRuntime R} {cfg : ActorConfig} {env : Meanwhile} {id : AttachmentId}
  {principal : AttachmentPrincipal} {resume : Option RemoteResumeRequest}
  {baseColors : TerminalColorProfile}

/-! ## Attaching -/

variable (em) in
def attachView (rt : SessionRuntime R) (env : Meanwhile) (baseColors : TerminalColorProfile) :
    TerminalModel R :=
  (((rt.meet em env 0).observeColors env baseColors).2.meet em env 1).driver.model

/-- What is shown of the terminal `t`: all of it, or the delta from a resumed checkpoint. -/
structure Captures (t : TerminalModel R) (resumed : Option TerminalAttachment)
    (snapshot : TerminalSurfaceSnapshot) (initialDelta : Option TerminalSurfaceDelta) : Prop where
  full : initialDelta = none → snapshot = t.snapshot
  delta : ∀ delta, initialDelta = some delta → ∃ held, resumed = some ⟨some held⟩ ∧
    (t.capture (some held)).1 = .delta delta

variable (em cfg) in
theorem observeColors_spec (rt : SessionRuntime R) (env : Meanwhile)
    (baseColors : TerminalColorProfile) :
    ∃ d, (rt.observeColors env baseColors).2 = rt.setDriver d ∧
      Proceeds em cfg.Admits rt.driver.model d.model := by
  have hm : Proceeds em cfg.Admits rt.driver.model _ :=
    rt.driver.updateBaseColors_proceeds baseColors env.ptyError
  unfold observeColors
  split
  · exact ⟨rt.driver, rfl, .refl⟩
  split
  · exact ⟨rt.driver, rfl, .refl⟩
  split <;> rename_i hu <;> rw [hu] at hm <;> exact ⟨_, rfl, hm⟩

/-- What a new attachment is shown of the terminal `view`, which has become `t` meanwhile. -/
structure Shows (view : TerminalModel R) (resumed : Option TerminalAttachment)
    (t : TerminalModel R) (initial : InitialState) : Prop where
  terminal : initial.terminal = ⟨some view.checkpoint⟩
  captures : Captures view resumed initial.snapshot initial.delta
  revision : ∀ id handle,
    PreparedAttachment.revision ⟨id, handle, initial.snapshot, initial.delta⟩ = initial.revision
  bound : Tracks view view → initial.revision ≤ t.publishedRevision

theorem Captures.all {t : TerminalModel R} {resumed : Option TerminalAttachment} :
    Captures t resumed t.snapshot none := ⟨fun _ => rfl, fun _ hd => by cases hd⟩

variable (em cfg) in
theorem initialState_spec (rt : SessionRuntime R) (env : Meanwhile)
    (resumed : Option TerminalAttachment) :
    ∃ d, (rt.initialState em env resumed).2 = rt.setDriver d ∧
      Proceeds em cfg.Admits (rt.meet em env 1).driver.model d.model ∧
      ∀ initial, (rt.initialState em env resumed).1 = .ok initial →
        Shows (rt.meet em env 1).driver.model resumed d.model initial := by
  unfold initialState
  dsimp only
  cases hf : (rt.meet em env 1).driver.failure with
  | some error =>
    -- nothing is shown by a terminal that has failed
    refine ⟨_, ?_, .refl, fun initial hi => ?_⟩
    · split <;> simp only [TerminalDriver.syncLatest, TerminalDriver.fullSync_failed hf, hf] <;> rfl
    · split at hi <;>
        simp only [TerminalDriver.syncLatest, TerminalDriver.fullSync_failed hf, hf] at hi <;> cases hi
  | none =>
    split
    · rename_i terminal hresumed
      simp only [TerminalDriver.syncLatest, hf]
      cases hc : ((rt.meet em env 1).driver.model.capture terminal.checkpoint).1 with
      | resync s =>
        obtain rfl := TerminalDriver.capture_resync hc
        refine ⟨_, rfl, .refl, fun initial hi => ?_⟩
        obtain rfl := Except.ok.inj hi
        exact ⟨rfl, .all, fun _ _ => rfl, fun _ => (snapshot_revision _).le⟩
      | delta delta =>
        obtain ⟨hrev, held, hheld, -⟩ := TerminalDriver.capture_delta hc
        have hlater := (rt.meet em env 1).meet_proceeds em cfg env 2
        simp only [TerminalDriver.latestSnapshot]
        cases hf2 : ((rt.meet em env 1).meet em env 2).driver.failure with
        | some error => exact ⟨_, rfl, hlater, fun _ hi => by cases hi⟩
        | none =>
          refine ⟨_, rfl, hlater, fun initial hi => ?_⟩
          obtain rfl := Except.ok.inj hi
          refine ⟨rfl, ⟨fun hd => (by cases hd), fun delta' hd => ?_⟩, fun _ _ => rfl, fun ht =>
            hrev.le.trans (hlater.onward ht).2⟩
          obtain rfl := Option.some.inj hd
          obtain ⟨hterminal, -⟩ := Option.filter_eq_some_iff.mp hresumed
          refine ⟨held, ?_, hheld ▸ hc⟩
          rw [hterminal, ← hheld]
    · rw [TerminalDriver.fullSync_healthy hf]
      refine ⟨_, rfl, .refl, fun initial hi => ?_⟩
      obtain rfl := Except.ok.inj hi
      exact ⟨rfl, .all, fun _ _ => rfl, fun _ => (snapshot_revision _).le⟩

variable (em cfg) in
inductive Attaches (rt : SessionRuntime R) (principal : AttachmentPrincipal)
    (request : Option RemoteResumeRequest) (baseColors : TerminalColorProfile)
    (view : TerminalModel R) (resumed : Option TerminalAttachment) :
    Except DaemonError PreparedAttachment × SessionRuntime R → Prop where
  | refused {e : DaemonError} {d : TerminalDriver R}
      (model : Proceeds em cfg.Admits rt.driver.model d.model) :
      Attaches rt principal request baseColors view resumed (.error e, rt.setDriver d)
  | attached {id : AttachmentId} {initial : InitialState} {target : SyncTarget}
      {rt' : SessionRuntime R} (before : Proceeds em cfg.Admits rt.driver.model view)
      (after : Proceeds em cfg.Admits view rt'.driver.model)
      (attachments : rt'.attachments = rt.attachments) (handles : rt'.handles = rt.handles)
      (resume : rt'.resume = rt.resume)
      (shows : Shows view resumed rt'.driver.model initial) :
      Attaches rt principal request baseColors view resumed
        (.ok ⟨id, rt'.handles.length, initial.snapshot, initial.delta⟩,
          (rt'.addAttachment id principal request baseColors initial target).reconcileEffectTarget)

theorem reserveLease_frame (rt : SessionRuntime R) (id : AttachmentId) :
    (∃ e, rt.reserveLease id = (.error e, rt)) ∨
      ∃ target rt', rt.reserveLease id = (.ok target, rt') ∧ rt'.driver = rt.driver ∧
        rt'.attachments = rt.attachments ∧ rt'.handles = rt.handles ∧ rt'.resume = rt.resume := by
  unfold reserveLease
  split
  · exact .inr ⟨_, _, rfl, rfl, rfl, rfl, rfl⟩
  split
  · exact .inl ⟨_, rfl⟩
  · exact .inr ⟨_, _, rfl, rfl, rfl, rfl, rfl⟩

variable (em cfg) in
theorem prepareAttach_attaches (rt : SessionRuntime R) (env : Meanwhile)
    (principal : AttachmentPrincipal) (takeover : Bool) (request : Option RemoteResumeRequest)
    (baseColors : TerminalColorProfile) :
    Attaches em cfg { rt.reapDetached with resume := none } principal request baseColors
      (attachView em { rt.reapDetached with resume := none } env baseColors)
      (rt.reapDetached.takeResumeTerminal cfg principal request)
      (rt.prepareAttach em cfg env principal takeover request baseColors) := by
  unfold prepareAttach attachView
  dsimp only
  generalize { rt.reapDetached with resume := none } = base
  split
  · exact .refused .refl
  split
  · exact .refused .refl
  rename_i id _
  obtain ⟨d1, hcolors, hm1⟩ := (base.meet em env 0).observeColors_spec em cfg env baseColors
  have hm1 := (base.meet_proceeds em cfg env 0).trans hm1
  split <;> rename_i ho <;> rw [ho] at hcolors ⊢ <;> obtain rfl := hcolors
  · exact .refused hm1
  obtain ⟨d2, hinit, hm3, hshows⟩ := initialState_spec em cfg ((base.meet em env 0).setDriver d1) env
    (rt.reapDetached.takeResumeTerminal cfg principal request)
  have hm2 := hm1.trans (((base.meet em env 0).setDriver d1).meet_proceeds em cfg env 1)
  split <;> rename_i hi <;> rw [hi] at hinit hshows <;> obtain rfl := hinit
  · exact .refused (hm2.trans hm3)
  rcases reserveLease_frame (((base.meet em env 0).setDriver d1).setDriver d2) id with
    ⟨e, hl⟩ | ⟨target, rt', hl, hdriver, hattachments, hhandles, hresume⟩ <;> rw [hl]
  · exact .refused (hm2.trans hm3)
  · have hmodel : rt'.driver.model = d2.model := congrArg _ hdriver
    refine .attached hm2 (hmodel ▸ hm3) hattachments hhandles hresume ?_
    rw [hmodel]
    exact hshows _ rfl

theorem get_addAttachment (rt : SessionRuntime R) (id : AttachmentId) {initial : InitialState}
    {target : SyncTarget} (id' : AttachmentId) :
    (rt.addAttachment id principal resume baseColors initial
      target).reconcileEffectTarget.attachments[id']? = if id = id' then some
        { baseColors, principal
          resumeViewId := resume.map (·.viewId)
          terminal := initial.terminal
          sync := .awaiting initial.revision target
          handle := rt.handles.length } else rt.attachments[id']? := OrdMap.get_insert

theorem advance_of_attach {takeover : Bool} {initial : InitialState} {target : SyncTarget}
    (hh : Handles rt) (hw : rt0.Within rt) (hlength : rt0.handles.length = rt.handles.length)
    (hm : Onward rt.driver.model rt0.driver.model)
    (hbound : Tracks rt.driver.model rt.driver.model →
      initial.revision ≤ rt0.driver.model.publishedRevision) :
    Advance rt (.command (.prepareAttach principal takeover resume baseColors) env)
      (some (rt0.handles.length, initial.revision))
      (rt0.addAttachment id principal resume baseColors initial target).reconcileEffectTarget := by
  have hlen : (rt0.addAttachment id principal resume baseColors initial
      target).reconcileEffectTarget.handles.length = rt.handles.length + 1 := by
    simp [addAttachment, reconcileEffectTarget, setDriver, hlength]
  refine ⟨fun id' a' ha' => ?_, hm, by omega⟩
  have hcase := ha'
  rw [get_addAttachment] at hcase
  split at hcase
  · rename_i hid
    subst hid
    obtain rfl := Option.some.inj hcase
    refine .inr ⟨⟨principal, takeover, resume, baseColors, env, rfl⟩, hlength, hlen,
      ⟨_, target, rfl, rfl, hbound⟩, rfl, rfl, rfl, rfl, fun id' a' h hne => ?_⟩
    rw [get_addAttachment, if_neg (Ne.symm hne)] at h
    exact hw id' a' h
  · -- a new handle is no other attachment's
    have hold := hw id' a' hcase
    have hne : rt0.handles.length ≠ a'.handle := by
      have := hh.bound id' a' hold
      omega
    refine .inl ⟨a', hold, ?_⟩
    rw [madeFor_other hne]
    exact .kept

theorem Attaches.moves {view : TerminalModel R} {resumed : Option TerminalAttachment}
    {out : Except DaemonError PreparedAttachment × SessionRuntime R} (hh : Handles rt)
    (hpruned : Pruned rt rt')
    (h : Attaches em cfg { rt' with resume := none } principal resume baseColors view resumed out)
    (takeover : Bool) :
    Moves em cfg rt (.command (.prepareAttach principal takeover resume baseColors) env)
      (rt.producedBy (.prepareAttach principal takeover resume baseColors) (respond .prepared out))
      out.2 := by
  cases h with
  | refused model =>
    exact moves_of_within hpruned.within ⟨hpruned.proceeds.trans model, fun c hc => by cases hc⟩
      hpruned.handles
  | @attached id initial target rt0 before after attachments handles hresume shows =>
    have hbefore : Proceeds em cfg.Admits _ view := hpruned.proceeds.trans before
    have hm : Proceeds em cfg.Admits _ _ := hbefore.trans after
    refine ⟨?_, hm, fun c hc => ?_⟩
    · change Advance rt _ (some (rt0.handles.length, PreparedAttachment.revision
        ⟨id, rt0.handles.length, initial.snapshot, initial.delta⟩)) _
      rw [shows.revision]
      exact advance_of_attach hh (fun id a ha => hpruned.within id a (attachments ▸ ha))
        ((congrArg _ handles).trans hpruned.handles) hm.onward
        fun ht => shows.bound (hbefore.onward ht).1
    · cases hresume.symm.trans hc

theorem prepareAttach_moves (hh : Handles rt) (takeover : Bool) :
    Moves em cfg rt (.command (.prepareAttach principal takeover resume baseColors) env)
      (rt.producedBy (.prepareAttach principal takeover resume baseColors)
        (respond .prepared (rt.prepareAttach em cfg env principal takeover resume baseColors)))
      (rt.prepareAttach em cfg env principal takeover resume baseColors).2 :=
  (rt.prepareAttach_attaches em cfg env principal takeover resume baseColors).moves hh
    rt.reapDetached_pruned takeover

variable (em cfg) in
theorem prepareAttach_resume (rt : SessionRuntime R) (env : Meanwhile)
    (principal : AttachmentPrincipal) (takeover : Bool) (request : Option RemoteResumeRequest)
    (baseColors : TerminalColorProfile) :
    (rt.prepareAttach em cfg env principal takeover request baseColors).2.resume = none := by
  have hout := rt.prepareAttach_attaches em cfg env principal takeover request baseColors
  generalize rt.prepareAttach em cfg env principal takeover request baseColors = out at hout
  cases hout with
  | refused _ => rfl
  | attached _ _ _ _ resume _ => exact resume

/-! ## A step -/

theorem dispatch_moves (hh : Handles rt) (hlive : rt.ended = false) (command : SessionCommand)
    (env : Meanwhile) :
    Moves em cfg rt (.command command env) (rt.producedBy command (rt.dispatch em cfg env command))
      (rt.dispatch em cfg env command).2 := by
  cases command with
  | prepareAttach principal takeover resume baseColors => exact prepareAttach_moves hh takeover
  | detachForRemoteResume id => exact detachForRemoteResume_moves hlive
  | snapshotApplied id revision => exact snapshotApplied_moves hh revision
  | nextUpdate id => exact nextUpdate_moves hh
  | finalUpdate id => exact finalUpdate_moves hh
  | syncLatest id known => exact syncLatest_moves hh known
  | validateHistoryController id => exact moves_refl rt _
  | admitUpload principal id => exact moves_refl rt _
  | writeInput id bytes => exact moves_refl rt _
  | updateColors id sequence baseColors => exact updateColors_moves hh sequence baseColors
  | resize id size => exact resize_moves size
  | takeover principal id key continuation => exact takeover_moves hh principal key continuation
  | detachRemotePrincipal device => exact detachRemotePrincipal_moves device
  | countRemoteAttachments device => exact moves_refl rt _

theorem step_moves (em : Emulator R) (cfg : ActorConfig) (hh : Handles rt) (e : ActorEvent) :
    Moves em cfg rt e (rt.produced em cfg e) (rt.step em cfg e) := by
  cases e with
  | command command env =>
    simp only [step, produced]
    split
    · exact moves_refl rt _
    · rename_i hlive
      exact dispatch_moves hh (by simpa using hlive) command env
  | reapDetached =>
    simp only [step, produced]
    split
    · exact moves_refl rt _
    · exact rt.reapDetached_pruned.moves
  | driver events =>
    simp only [step, produced]
    split
    · exact moves_refl rt _
    · exact moves_of_within .refl (.kept (rt.driver.meet_proceeds events) rfl) rfl
  | detach handle => exact (rt.markDetached_pruned handle).moves
  | takeHostEffect id => exact moves_of_within .refl (.kept .refl rfl) rfl
  | takeFinalUpdate handle =>
    exact moves_of_within .refl (.kept .refl rfl) (List.length_modify ..)
  | finish reason drain =>
    simp only [step, produced]
    split
    · exact moves_refl rt _
    · exact finishRuntime_moves reason drain

end SessionRuntime

/-! ## Handles -/

theorem Change.handle {driver : TerminalDriver R} {e : ActorEvent} {id : AttachmentId}
    {a a' : ActorAttachment} {made : Option Nat} (h : Change driver e id a a' made) :
    a'.handle = a.handle := by
  cases h with
  | acknowledged _ => unfold ActorAttachment.applied; dsimp only; split <;> rfl
  | finalized _ => unfold SessionRuntime.finalTerminalUpdate; split <;> rfl
  | promoted _ => exact (SessionRuntime.promoted_pending a _).2
  | halted _ _ => exact (SessionRuntime.promoted_pending a _).2
  | _ => rfl

theorem Advance.handles_inv {rt rt' : SessionRuntime R} {e : ActorEvent} {made : Option (Nat × Nat)}
    (h : Advance rt e made rt') (hh : Handles rt) : Handles rt' where
  bound := fun id a' ha' => by
    rcases h.evolves id a' ha' with ⟨a, ha, hc⟩ | hf
    · rw [hc.handle]
      exact (hh.bound id a ha).trans_le h.handles
    · rw [hf.handle, hf.handles]
      exact Nat.lt_succ_self _
  unique := fun id id' a' b' ha' hb' heq => by
    rcases h.evolves id a' ha' with ⟨a, ha, hc⟩ | hf
    · rcases h.evolves id' b' hb' with ⟨b, hb, hd⟩ | hg
      · exact hh.unique id id' a b ha hb (hc.handle ▸ hd.handle ▸ heq)
      · -- an old handle is not the new one
        have := hh.bound id a ha
        rw [← hc.handle, heq, hg.handle] at this
        exact absurd this (Nat.lt_irrefl _)
    · by_contra hne
      have hold := hf.others id' b' hb' (Ne.symm hne)
      have := hh.bound id' b' hold
      rw [← heq, hf.handle] at this
      exact absurd this (Nat.lt_irrefl _)

end Voytty.Daemon
