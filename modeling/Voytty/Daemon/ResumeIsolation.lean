import Voytty.Daemon.ResumeCheckpoint

/-!
# Resuming is isolated

`Recorded` keeps the terminals the actor has looked at beside its state. Every
checkpoint is one of theirs (`Held`) and one revision has one surface, so the delta
sent to a view that resumes leads from what it holds to the current surface.
-/

namespace Voytty.Daemon

open Voytty.Lib Voytty.Terminal Relation

variable {R : Type} {em : Emulator R}

namespace SessionRuntime

/-! ## What the actor has looked at -/

variable (em : Emulator R) (cfg : ActorConfig) (rt : SessionRuntime R)

def glimpse : ActorEvent → List (TerminalModel R)
  | .command (.prepareAttach principal takeover request baseColors) env =>
    if rt.ended then [] else
    match (rt.prepareAttach em cfg env principal takeover request baseColors).1 with
    | .ok _ => [attachView em { rt.reapDetached with resume := none } env baseColors]
    | .error _ => []
  | _ => []

/-- An attach takes the saved checkpoint as its own. -/
def uses : ActorEvent → Bool
  | .command (.prepareAttach principal _ request _) _ =>
    !rt.ended && (rt.reapDetached.takeResumeTerminal cfg principal request).isSome
  | _ => false

def saves : ActorEvent → Bool
  | .command (.detachForRemoteResume id) _ =>
    !rt.ended && (rt.detachForRemoteResume cfg id).1.toOption == some true
  | _ => false

variable {rt}

theorem Leaves.saves {e : ActorEvent} {c : RemoteResumeCheckpoint} (h : Leaves cfg rt e c) :
    rt.saves cfg e = true := by
  cases h with
  | controller running found controls active remote view holds =>
    simp [SessionRuntime.saves, running, detachForRemoteResume, found, controls, active, remote,
      view, holds, Except.toOption]

theorem uses_spends {e : ActorEvent} (h : rt.uses cfg e = true) :
    rt.resume ≠ none ∧ (rt.step em cfg e).resume = none := by
  unfold uses at h
  split at h
  · rename_i principal takeover request baseColors env
    rw [Bool.and_eq_true, Bool.not_eq_true'] at h
    obtain ⟨hlive, hsome⟩ := h
    refine ⟨fun hnone => ?_, ?_⟩
    · have hresume : rt.reapDetached.resume = none := rt.reapDetached_pruned.resume.trans hnone
      simp [takeResumeTerminal, hresume] at hsome
    · simp only [step, hlive]
      exact rt.prepareAttach_resume em cfg env principal takeover request baseColors
  · cases h

theorem glimpse_cases (rt : SessionRuntime R) (e : ActorEvent) :
    rt.glimpse em cfg e = [] ∨ ∃ view, rt.glimpse em cfg e = [view] ∧
      Proceeds em cfg.Admits rt.driver.model view ∧
      Proceeds em cfg.Admits view (rt.step em cfg e).driver.model := by
  unfold glimpse
  split
  · rename_i principal takeover request baseColors env
    split
    · exact .inl rfl
    rename_i hlive
    have hout := rt.prepareAttach_attaches em cfg env principal takeover request baseColors
    simp only [step, dispatch, respond, if_neg hlive]
    generalize rt.prepareAttach em cfg env principal takeover request baseColors = out at hout ⊢
    cases hout with
    | refused _ => exact .inl rfl
    | attached before after _ _ _ _ =>
      exact .inr ⟨_, rfl, rt.reapDetached_pruned.proceeds.trans before, after⟩
  · exact .inl rfl

/-- An attachment's checkpoint after an event is one it had or one of a terminal just looked at. -/
theorem step_terminals (hh : Handles rt) (e : ActorEvent) {id : AttachmentId}
    {a' : ActorAttachment} {held : TerminalCheckpoint}
    (ha' : (rt.step em cfg e).attachments[id]? = some a')
    (hheld : a'.terminal.checkpoint = some held) :
    (∃ a, rt.attachments[id]? = some a ∧ a.terminal.checkpoint = some held) ∨
      ∃ t ∈ (rt.step em cfg e).driver.model :: rt.glimpse em cfg e, t.checkpoint = held := by
  rcases (rt.step_moves em cfg hh e).advance.evolves id a' ha' with ⟨a, ha, hc⟩ | hfresh
  · rcases hc.terminal with ht | ht | ht <;> rw [ht] at hheld
    · exact .inl ⟨a, ha, hheld⟩
    · exact .inr ⟨_, List.mem_cons_self, Option.some.inj hheld⟩
    · cases hheld
  · obtain ⟨principal, takeover, request, baseColors, env, rfl⟩ := hfresh.asked
    simp only [step, glimpse] at ha' ⊢
    by_cases hlive : rt.ended = true
    · rw [if_pos hlive] at ha'
      exact .inl ⟨a', ha', hheld⟩
    simp only [if_neg hlive, dispatch, respond] at ha' ⊢
    have hout := rt.prepareAttach_attaches em cfg env principal takeover request baseColors
    generalize rt.prepareAttach em cfg env principal takeover request baseColors = out at hout ha' ⊢
    cases hout with
    | refused _ => exact .inl ⟨a', rt.reapDetached_pruned.within id a' ha', hheld⟩
    | attached _ _ attachments _ _ shows =>
      rw [get_addAttachment, attachments] at ha'
      split at ha'
      · obtain rfl := Option.some.inj ha'
        rw [shows.terminal] at hheld
        exact .inr ⟨_, List.mem_cons_of_mem _ List.mem_cons_self, Option.some.inj hheld⟩
      · exact .inl ⟨a', rt.reapDetached_pruned.within id a' ha', hheld⟩

end SessionRuntime

/-- A session beside the terminals its actor has looked at, the latest first, the number of
checkpoints saved, and the numbers of those that were used. -/
structure Recorded (R : Type) where
  runtime : SessionRuntime R
  seen : List (TerminalModel R)
  saved : Nat := 0
  used : List Nat := []

namespace Recorded

variable (em) (cfg : ActorConfig)

def step (s : Recorded R) (e : ActorEvent) : Recorded R :=
  let rt := s.runtime.step em cfg e
  { runtime := rt
    seen := rt.driver.model :: (s.runtime.glimpse em cfg e ++ s.seen)
    saved := if s.runtime.saves cfg e then s.saved + 1 else s.saved
    used := if s.runtime.uses cfg e then s.saved :: s.used else s.used }

def run (model : TerminalModel R) (events : List ActorEvent) : Recorded R :=
  events.foldl (step em cfg) { runtime := .start model, seen := [model] }

theorem run_runtime (model : TerminalModel R) (events : List ActorEvent) :
    (run em cfg model events).runtime = SessionRuntime.run em cfg model events :=
  (List.foldl_hom runtime (fun _ _ => rfl)).symm

/-- Every checkpoint is one of a terminal the actor has looked at, and a saved one was not used. -/
structure Held (model : TerminalModel R) (s : Recorded R) : Prop where
  origin : ∀ t ∈ s.seen, Proceeds em cfg.Admits model t
  handles : Handles s.runtime
  chain : s.seen.Pairwise fun newer older => Proceeds em cfg.Admits older newer
  latest : s.seen.head? = some s.runtime.driver.model
  attachments : ∀ (id : AttachmentId) (a : ActorAttachment) (held : TerminalCheckpoint),
    s.runtime.attachments[id]? = some a → a.terminal.checkpoint = some held →
    ∃ t ∈ s.seen, t.checkpoint = held
  resume : ∀ c, s.runtime.resume = some c → ∃ held, c.terminal = ⟨some held⟩ ∧
    held.revision = c.revision ∧ ∃ t ∈ s.seen, t.checkpoint = held
  unused : s.runtime.resume ≠ none → s.saved ∉ s.used
  counted : ∀ n ∈ s.used, n ≤ s.saved
  once : s.used.Nodup

variable {em cfg} {model : TerminalModel R} {s : Recorded R}

theorem Held.reaches (h : Held em cfg model s) {t : TerminalModel R} (ht : t ∈ s.seen) :
    Proceeds em cfg.Admits t s.runtime.driver.model := by
  have hchain := h.chain
  have hlatest := h.latest
  cases hs : s.seen with
  | nil => rw [hs] at ht; cases ht
  | cons m rest =>
    rw [hs] at hchain hlatest ht
    obtain rfl := Option.some.inj hlatest
    rcases List.mem_cons.mp ht with rfl | hmem
    · exact .refl
    · exact (List.pairwise_cons.mp hchain).1 t hmem

theorem Held.comparable (h : Held em cfg model s) {t t' : TerminalModel R} (ht : t ∈ s.seen)
    (ht' : t' ∈ s.seen) : Proceeds em cfg.Admits t t' ∨ Proceeds em cfg.Admits t' t := by
  let related : TerminalModel R → TerminalModel R → Prop := fun a b =>
    Proceeds em cfg.Admits a b ∨ Proceeds em cfg.Admits b a
  have hsymm : Std.Symm related := ⟨fun _ _ hab => hab.symm⟩
  have hrelated : s.seen.Pairwise related := h.chain.imp .inr
  exact hrelated.forall_of_forall (fun _ _ => .inl .refl) ht ht'

theorem Held.step (h : Held em cfg model s) (e : ActorEvent) :
    Held em cfg model (s.step em cfg e) := by
  obtain ⟨hadvance, hpasses⟩ := s.runtime.step_moves em cfg h.handles e
  have hold : ∀ t ∈ s.seen, t ∈ (s.step em cfg e).seen := fun t ht =>
    List.mem_cons_of_mem _ (List.mem_append_right _ ht)
  have hcurrent : Proceeds em cfg.Admits model s.runtime.driver.model :=
    h.origin _ (List.mem_of_mem_head? h.latest)
  refine ⟨fun t ht => ?_, hadvance.handles_inv h.handles, ?_, rfl,
    fun id a held ha hheld => ?_, fun c hc => ?_, fun hne => ?_, fun n hn => ?_, ?_⟩
  · rcases s.runtime.glimpse_cases em cfg e with hg | ⟨view, hg, hbefore, -⟩ <;>
      simp only [Recorded.step, hg, List.nil_append, List.singleton_append, List.mem_cons] at ht
    · rcases ht with rfl | ht
      · exact hcurrent.trans hpasses.model
      · exact h.origin t ht
    · rcases ht with rfl | rfl | ht
      · exact hcurrent.trans hpasses.model
      · exact hcurrent.trans hbefore
      · exact h.origin t ht
  · -- the terminal was captured on its way to where it is now
    rcases s.runtime.glimpse_cases em cfg e with hg | ⟨view, hg, hbefore, hafter⟩ <;>
      simp only [Recorded.step, hg, List.nil_append, List.singleton_append, List.pairwise_cons]
    · exact ⟨fun t ht => (h.reaches ht).trans hpasses.model, h.chain⟩
    · refine ⟨fun t ht => ?_, fun t ht => (h.reaches ht).trans hbefore, h.chain⟩
      rcases List.mem_cons.mp ht with rfl | ht
      · exact hafter
      · exact (h.reaches ht).trans hpasses.model
  · rcases s.runtime.step_terminals em cfg h.handles e ha hheld with ⟨a, ha, hheld⟩ | ⟨t, ht, hc⟩
    · obtain ⟨t, ht, hc⟩ := h.attachments id a held ha hheld
      exact ⟨t, hold t ht, hc⟩
    · refine ⟨t, ?_, hc⟩
      simp only [Recorded.step, ← List.cons_append]
      exact List.mem_append_left _ ht
  · rcases hpasses.resume c hc with hc | hleft
    · obtain ⟨held, hterminal, hrev, t, ht, hcheck⟩ := h.resume c hc
      exact ⟨held, hterminal, hrev, t, hold t ht, hcheck⟩
    · cases hleft with
      | @controller id env a _ _ _ _ held running found controls active remote view holds =>
        obtain ⟨t, ht, hcheck⟩ := h.attachments id a held found (by rw [holds])
        exact ⟨held, holds, rfl, t, hold t ht, hcheck⟩
  · -- what is saved now was saved before and not used, or has a number of its own
    simp only [Recorded.step] at hne ⊢
    by_cases hu : s.runtime.uses cfg e = true
    · exact absurd (SessionRuntime.uses_spends em cfg hu).2 hne
    rw [if_neg hu]
    split
    · exact fun hmem => absurd (h.counted _ hmem) (by omega)
    · rename_i hsaves
      obtain ⟨c, hc⟩ := Option.ne_none_iff_exists'.mp hne
      rcases hpasses.resume c hc with hc | hleft
      · exact h.unused (by simp [hc])
      · exact absurd hleft.saves hsaves
  · have hle : s.saved ≤ (s.step em cfg e).saved := by
      simp only [Recorded.step]
      split <;> omega
    simp only [Recorded.step] at hn
    split at hn
    · rcases List.mem_cons.mp hn with rfl | hn
      · exact hle
      · exact (h.counted n hn).trans hle
    · exact (h.counted n hn).trans hle
  · simp only [Recorded.step]
    split
    · rename_i hu
      exact List.nodup_cons.mpr ⟨h.unused (SessionRuntime.uses_spends em cfg hu).1, h.once⟩
    · exact h.once

theorem Held.start (model : TerminalModel R) :
    Held em cfg model { runtime := .start model, seen := [model] } where
  origin := fun t ht => by rw [List.mem_singleton.mp ht]; exact .refl
  handles := ⟨by simp [SessionRuntime.start], by simp [SessionRuntime.start]⟩
  chain := List.pairwise_singleton ..
  latest := rfl
  attachments := by simp [SessionRuntime.start]
  resume := by simp [SessionRuntime.start]
  unused := by simp
  counted := by simp
  once := List.nodup_nil

variable (em cfg) in
theorem Held.run (model : TerminalModel R) (events : List ActorEvent) :
    Held em cfg model (Recorded.run em cfg model events) :=
  List.foldlRecOn events _ (.start model) fun _ h e _ => h.step e

/-! ## Isolation -/

/-- A delta that continues from the saved checkpoint `c`, for the terminal `t`. -/
structure Resumes (cfg : ActorConfig) (s : Recorded R) (principal : AttachmentPrincipal)
    (request : Option RemoteResumeRequest) (delta : TerminalSurfaceDelta) (t : TerminalModel R)
    (c : RemoteResumeCheckpoint) : Prop where
  saved : s.runtime.resume = some c
  unused : s.saved ∉ s.used
  principal : c.principal = principal
  session : c.sessionId = cfg.sessionId
  asked : ∃ r, request = some r ∧ r.viewId = c.viewId ∧ r.knownRevision = some c.revision
  published : ∃ t0 ∈ s.seen, t0.publishedRevision = c.revision
  applies : ∀ t0 ∈ s.seen, t0.publishedRevision = c.revision →
    t0.snapshot.surface.size = t.snapshot.surface.size ∧
    t0.snapshot.surface.activeScreen = t.snapshot.surface.activeScreen ∧
    delta.applyTo c.revision t0.snapshot.surface = (.ok (), t.snapshot.surface)

variable (em cfg) in
/-- What the event `e` does with the saved checkpoint. -/
structure Isolated (s : Recorded R) (e : ActorEvent) : Prop where
  /-- Only the active remote controller leaves one, when it detaches for a resume. -/
  left : ∀ c, (s.step em cfg e).runtime.resume = some c →
    s.runtime.resume = some c ∨ SessionRuntime.Leaves cfg s.runtime e c
  /-- An attach takes it away, and continues from it only if it is its own. -/
  attached : ∀ principal takeover request baseColors env,
    e = .command (.prepareAttach principal takeover request baseColors) env →
    s.runtime.ended = false →
    (s.step em cfg e).runtime.resume = none ∧
    ∀ p, (s.runtime.prepareAttach em cfg env principal takeover request baseColors).1 = .ok p →
      let t := SessionRuntime.attachView em { s.runtime.reapDetached with resume := none } env
        baseColors
      (p.initialDelta = none → p.snapshot = t.snapshot) ∧
      ∀ delta, p.initialDelta = some delta → ∃ c, Resumes cfg s principal request delta t c
  /-- Another detach for a resume replaces it. -/
  replaced : ∀ id a env, e = .command (.detachForRemoteResume id) env → s.runtime.ended = false →
    s.runtime.attachments[id]? = some a →
    ∀ c, (s.step em cfg e).runtime.resume = some c → SessionRuntime.Leaves cfg s.runtime e c
  /-- A detach of its principal removes it. -/
  revoked : ∀ device env, e = .command (.detachRemotePrincipal device) env →
    s.runtime.ended = false →
    ∀ c, (s.step em cfg e).runtime.resume = some c →
      SessionRuntime.isRemote device c.principal = false
  /-- The end of the session removes it. -/
  finished : ∀ reason drain, e = .finish reason drain → s.runtime.ended = false →
    (s.step em cfg e).runtime.resume = none

theorem takeResumeTerminal_some {rt : SessionRuntime R} {principal : AttachmentPrincipal}
    {request : Option RemoteResumeRequest} {terminal : TerminalAttachment}
    (h : rt.takeResumeTerminal cfg principal request = some terminal) :
    ∃ c, rt.resume = some c ∧ c.terminal = terminal ∧ c.principal = principal ∧
      c.sessionId = cfg.sessionId ∧
      ∃ r, request = some r ∧ r.viewId = c.viewId ∧ r.knownRevision = some c.revision := by
  unfold SessionRuntime.takeResumeTerminal at h
  obtain ⟨r, hr, hasked⟩ := Option.bind_eq_some_iff.mp h
  obtain ⟨c, hc, hfound⟩ := Option.bind_eq_some_iff.mp hasked
  split at hfound
  · rename_i hmatch
    obtain ⟨hp, hs, hv, hk⟩ := hmatch
    exact ⟨c, hc, Option.some.inj hfound, hp, hs, r, hr, hv.symm, hk⟩
  · cases hfound

/-- Two terminals seen under one revision show the same. -/
theorem Held.snapshot_unique (h : Held em cfg model s) (hmodel : Tracks model model)
    {t t' : TerminalModel R} (ht : t ∈ s.seen) (ht' : t' ∈ s.seen)
    (he : t.publishedRevision = t'.publishedRevision) : t.snapshot = t'.snapshot := by
  rcases h.comparable ht ht' with hp | hp
  · exact (Publishes.snapshot (hp.publishes ((h.origin t ht).publishes hmodel).1).2).2 he
  · exact ((Publishes.snapshot (hp.publishes ((h.origin t' ht').publishes hmodel).1).2).2
      he.symm).symm

/-- The delta from a checkpoint seen before leads from the surface of its revision to the one it was
captured from. -/
theorem Held.delta_applies (h : Held em cfg model s) (hmodel : Tracks model model)
    (law : EngineLaw em cfg.Admits Presentable) (hinv : ModelInv Presentable model)
    {t0 t1 t : TerminalModel R} (ht0 : t0 ∈ s.seen) (ht1 : t1 ∈ s.seen)
    (hrev : t0.publishedRevision = t1.publishedRevision)
    (hlater : Proceeds em cfg.Admits s.runtime.driver.model t) {delta : TerminalSurfaceDelta}
    (hd : (t.capture (some t1.checkpoint)).1 = .delta delta) :
    t0.snapshot.surface.size = t.snapshot.surface.size ∧
      t0.snapshot.surface.activeScreen = t.snapshot.surface.activeScreen ∧
      delta.applyTo t1.publishedRevision t0.snapshot.surface = (.ok (), t.snapshot.surface) := by
  have hbase := ((h.origin t1 ht1).advances law hinv).1
  have hway : Proceeds em cfg.Admits t1 t := (h.reaches ht1).trans hlater
  obtain ⟨htarget, hadv⟩ := hway.advances law hbase
  have hvalid : (t1.checkpoint.projection.toSurface t1.liveScrollMetrics).Valid
      t1.checkpoint.revision := snapshot_valid hbase
  obtain ⟨hleads, hfrom, hto⟩ := capture_leads htarget hvalid hadv.colors hd
  rw [h.snapshot_unique hmodel ht0 ht1 hrev]
  refine ⟨hleads.sameSize, hleads.sameScreen, ?_⟩
  have happly := hleads.applyTo (hfrom ▸ hvalid) (hto ▸ snapshot_valid htarget)
  rw [hfrom, ← publishedRevision_eq] at happly
  exact happly

theorem Held.isolated (h : Held em cfg model s) (hmodel : Tracks model model)
    (law : EngineLaw em cfg.Admits Presentable) (hinv : ModelInv Presentable model)
    (e : ActorEvent) : Isolated em cfg s e where
  left := (s.runtime.step_moves em cfg h.handles e).passes.resume
  attached := by
    rintro principal takeover request baseColors env rfl hlive
    have hreap := s.runtime.reapDetached_pruned
    refine ⟨?_, fun p hp => ?_⟩
    · simp only [Recorded.step, SessionRuntime.step, hlive]
      exact s.runtime.prepareAttach_resume em cfg env principal takeover request baseColors
    have hout := s.runtime.prepareAttach_attaches em cfg env principal takeover request baseColors
    generalize s.runtime.prepareAttach em cfg env principal takeover request baseColors = out
      at hout hp
    cases hout with
    | refused _ => cases hp
    | attached before after attachments handles resume shows =>
      obtain rfl := Except.ok.inj hp
      refine ⟨shows.captures.full, fun delta hd => ?_⟩
      obtain ⟨held, htaken, hcapture⟩ := shows.captures.delta delta hd
      obtain ⟨c, hc, hterminal, hp, hs, hasked⟩ := takeResumeTerminal_some htaken
      have hsaved : s.runtime.resume = some c := hreap.resume ▸ hc
      obtain ⟨held', hheld, hrev, t1, ht1, hcheck⟩ := h.resume c hsaved
      obtain rfl : held' = held := by simpa using hheld.symm.trans hterminal
      have hrevision : t1.publishedRevision = c.revision := by
        rw [publishedRevision_eq, hcheck, hrev]
      refine ⟨c, hsaved, h.unused (by simp [hsaved]), hp, hs, hasked, ⟨t1, ht1, hrevision⟩,
        fun t0 ht0 he => ?_⟩
      rw [← hrevision]
      exact h.delta_applies hmodel law hinv ht0 ht1 (he.trans hrevision.symm)
        (hreap.proceeds.trans before) (hcheck ▸ hcapture)
  replaced := by
    rintro id a env rfl hlive ha c hc
    simp only [Recorded.step, SessionRuntime.step, hlive] at hc
    exact SessionRuntime.detachForRemoteResume_leaves hlive ha hc
  revoked := by
    rintro device env rfl hlive c hc
    simp only [Recorded.step, SessionRuntime.step, hlive] at hc
    change (s.runtime.detachRemotePrincipal device).2.resume = some c at hc
    rw [(s.runtime.detachRemotePrincipal_pruned device).resume] at hc
    split at hc
    · cases hc
    · rename_i hany
      simpa [hc] using hany
  finished := by
    rintro reason drain rfl hlive
    simp only [Recorded.step, SessionRuntime.step, hlive]
    rfl

end Recorded

theorem ActorConfig.admits_within {cfg : ActorConfig}
    (hrows : cfg.limits.maxViewportRows ≤ ({} : ResourceLimits).maxViewportRows)
    (hcolumns : cfg.limits.maxViewportColumns ≤ ({} : ResourceLimits).maxViewportColumns)
    {size : TerminalSize} (h : cfg.Admits size) : size.WithinLimits := by
  unfold ActorConfig.Admits SessionRuntime.validateViewport at h
  split at h
  · cases h
  · rename_i hbounds
    simp only [not_or, not_lt] at hbounds
    exact ⟨Nat.pos_of_ne_zero hbounds.1, Nat.pos_of_ne_zero hbounds.2.1,
      hbounds.2.2.1.trans hrows, hbounds.2.2.2.trans hcolumns⟩


def attachRemote (takeover : Bool) (known : Option Nat) : ActorEvent :=
  .command (.prepareAttach (.remoteEndpoint 1 1) takeover (some ⟨7, known⟩) .default) {}

def resumeRun : List ActorEvent :=
  [attachRemote false none,
    .command (.snapshotApplied 0 0) {},
    .command (.detachForRemoteResume 0) {},
    .driver [.ingest id [0x78], .deliver none]]

/-- A local client waits to take over; the remote controller detaches for a resume; the local client
takes over and resizes, and another device's principal is detached. -/
def displacedRun : List ActorEvent :=
  [attachRemote false none,
    .command (.snapshotApplied 0 0) {},
    .command (.prepareAttach (.localSameUid 0 0) true none .default) {},
    .command (.snapshotApplied 1 0) {},
    .command (.detachForRemoteResume 0) {},
    .command (.takeover (.localSameUid 0 0) 1 ⟨⟨⟨0, 0⟩, 0⟩, ⟨⟨0, 0⟩, 0⟩⟩ false) {},
    .command (.resize 1 ⟨1, 2⟩) {},
    .command (.detachRemotePrincipal 2) {}]

end Voytty.Daemon
