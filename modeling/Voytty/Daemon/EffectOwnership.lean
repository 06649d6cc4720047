import Voytty.Lib.Fifo
import Voytty.Daemon.SessionActor

/-!
# Who receives a host effect

What the effect broker of a terminal (`daemon/src/terminal_driver.rs`) is for,
as a ledger: everything published, with the target it was published to, and
everything delivered. The broker keeps only what is still to be delivered; over
any run it answers as the ledger does (`Reflects`), although its queue drops and
its clipboard slot overwrites.
-/

namespace Voytty.Daemon

open Voytty.Lib Voytty.Terminal

def isClipboard : TerminalHostEffect → Bool
  | .clipboardWrite _ => true
  | .notification _ => false

def isNotification (effect : TerminalHostEffect) : Bool := !isClipboard effect

/-! ## The ledger -/

structure Post where
  target : Option AttachmentId
  effect : TerminalHostEffect
  deriving DecidableEq

/-- Effects are numbered in the order of their publication. -/
structure EffectLedger where
  posts : List Post := []
  target : Option AttachmentId := none
  /-- How much had been published when the target became the target. -/
  since : Nat := 0
  deliveries : List (AttachmentId × Nat) := []
  deriving DecidableEq

namespace EffectLedger

variable (l : EffectLedger)

def effect (n : Nat) : Option TerminalHostEffect := l.posts[n]?.map (·.effect)

def taken (n : Nat) : Bool := l.deliveries.any (·.2 = n)

/-- What was published to the target since it became the target. -/
def published (kind : TerminalHostEffect → Bool) : List Nat :=
  (List.range l.posts.length).filter fun n =>
    decide (l.since ≤ n) && l.posts[n]?.any fun post => post.target.isSome && kind post.effect

def clipboard : Option Nat := (l.published isClipboard).getLast?.filter fun n => !l.taken n

def notifications : List Nat :=
  (latest maxPendingTerminalNotifications (l.published isNotification)).filter fun n => !l.taken n

/-- What the target is still to receive, in this order. -/
def outstanding : List Nat := l.clipboard.toList ++ l.notifications

def setTarget (target : Option AttachmentId) : EffectLedger :=
  if l.target ≠ target then { l with target, since := l.posts.length } else l

def post (effect : TerminalHostEffect) : EffectLedger :=
  { l with posts := l.posts ++ [⟨l.target, effect⟩] }

def deliver (id : AttachmentId) (n : Nat) : EffectLedger :=
  { l with deliveries := l.deliveries ++ [(id, n)] }

def takeFor (id : AttachmentId) : EffectLedger :=
  match l.outstanding with
  | n :: _ => if l.target = some id then l.deliver id n else l
  | [] => l

end EffectLedger

/-! ## Runs -/

inductive BrokerEvent where
  | setTarget (target : Option AttachmentId)
  | publish (effects : TerminalHostEffects)
  | takeFor (id : AttachmentId)

/-- A broker in use, what its takes returned, and the ledger of it. -/
structure Brokered where
  broker : TerminalEffectBroker := {}
  received : List (AttachmentId × TerminalHostEffect) := []
  ledger : EffectLedger := {}

namespace Brokered

variable (s : Brokered)

def step : BrokerEvent → Brokered
  | .setTarget target =>
    { s with broker := s.broker.setTarget target, ledger := s.ledger.setTarget target }
  | .publish effects =>
    { s with
      broker := s.broker.publish effects
      ledger := (TerminalEffectBroker.drain effects).foldl EffectLedger.post s.ledger }
  | .takeFor id =>
    { broker := (s.broker.takeFor id).2
      received := s.received ++ (s.broker.takeFor id).1.toList.map fun effect => (id, effect)
      ledger := s.ledger.takeFor id }

def run (events : List BrokerEvent) : Brokered := events.foldl step s

end Brokered

/-! ## The ledger's own steps -/

namespace EffectLedger

variable {l : EffectLedger} {kind : TerminalHostEffect → Bool} {n : Nat}

theorem published_nodup : (l.published kind).Nodup := List.nodup_range.filter _

theorem mem_published : n ∈ l.published kind ↔ l.since ≤ n ∧ ∃ post, l.posts[n]? = some post ∧
    post.target.isSome = true ∧ kind post.effect = true := by
  rw [published, List.mem_filter, List.mem_range, Bool.and_eq_true, decide_eq_true_iff,
    Option.any_eq_true]
  constructor
  · rintro ⟨-, hsince, post, hpost, hkind⟩
    exact ⟨hsince, post, hpost, by simpa using hkind⟩
  · rintro ⟨hsince, post, hpost, hkind⟩
    exact ⟨(List.getElem?_eq_some_iff.1 hpost).1, hsince, post, hpost, by simpa using hkind⟩

theorem taken_iff : l.taken n = true ↔ n ∈ l.deliveries.map (·.2) := by
  rw [taken, List.any_eq_true, List.mem_map]
  simp

theorem published_post (hsince : l.since ≤ l.posts.length) (effect : TerminalHostEffect) :
    (l.post effect).published kind =
      l.published kind ++ if l.target.isSome && kind effect then [l.posts.length] else [] := by
  have hold : ∀ n ∈ List.range l.posts.length,
      (l.posts ++ [(⟨l.target, effect⟩ : Post)])[n]? = l.posts[n]? := fun n hn =>
    List.getElem?_append_left (List.mem_range.1 hn)
  unfold published post
  dsimp only
  rw [List.length_append, List.length_singleton, List.range_succ, List.filter_append]
  congr 1
  · refine List.filter_congr fun n hn => ?_
    rw [hold n hn]
  · rw [List.filter_singleton]
    simp only [List.getElem?_concat_length, Option.any_some, hsince, decide_true, Bool.true_and]
    cases l.target.isSome && kind effect <;> rfl

theorem effect_post (hn : n < l.posts.length) (effect : TerminalHostEffect) :
    (l.post effect).effect n = l.effect n := by
  unfold EffectLedger.effect post
  rw [List.getElem?_append_left hn]

theorem effect_post_self (effect : TerminalHostEffect) :
    (l.post effect).effect l.posts.length = some effect := by
  unfold EffectLedger.effect post
  rw [List.getElem?_concat_length]
  rfl

theorem published_lt (h : n ∈ l.published kind) : n < l.posts.length :=
  List.mem_range.1 (List.mem_filter.1 h).1

theorem clipboard_mem (h : l.clipboard = some n) :
    n ∈ l.published isClipboard ∧ l.taken n = false := by
  obtain ⟨hlast, htaken⟩ := Option.filter_eq_some_iff.1 h
  exact ⟨List.mem_of_getLast? hlast, by simpa using htaken⟩

theorem notifications_mem (h : n ∈ l.notifications) :
    n ∈ l.published isNotification ∧ l.taken n = false := by
  obtain ⟨hmem, htaken⟩ := List.mem_filter.1 h
  exact ⟨latest_suffix.subset hmem, by simpa using htaken⟩

theorem outstanding_mem (h : n ∈ l.outstanding) :
    l.taken n = false ∧ l.since ≤ n ∧ ∃ post, l.posts[n]? = some post ∧
      post.target.isSome = true := by
  have hpublished : (∃ kind, n ∈ l.published kind) ∧ l.taken n = false := by
    rcases List.mem_append.1 h with h | h
    · have hmem := clipboard_mem (Option.mem_toList.1 h)
      exact ⟨⟨_, hmem.1⟩, hmem.2⟩
    · have hmem := notifications_mem h
      exact ⟨⟨_, hmem.1⟩, hmem.2⟩
  obtain ⟨⟨kind, hmem⟩, htaken⟩ := hpublished
  obtain ⟨hsince, post, hpost, htarget, -⟩ := mem_published.1 hmem
  exact ⟨htaken, hsince, post, hpost, htarget⟩

end EffectLedger

/-! ## The broker keeps what is outstanding -/

structure Reflects (b : TerminalEffectBroker) (l : EffectLedger) : Prop where
  target : b.target = l.target
  since : l.since ≤ l.posts.length
  addressed : ∀ n post, l.since ≤ n → l.posts[n]? = some post → post.target = l.target
  clipboard : b.pending.clipboard.map (some ∘ TerminalHostEffect.clipboardWrite) =
    l.clipboard.map l.effect
  notifications : b.pending.notifications.map (some ∘ TerminalHostEffect.notification) =
    l.notifications.map l.effect
  suffix : l.notifications <:+
    latest maxPendingTerminalNotifications (l.published isNotification)
  delivered : ∀ d ∈ l.deliveries, ∃ post, l.posts[d.2]? = some post ∧ post.target = some d.1
  once : (l.deliveries.map (·.2)).Nodup

namespace Reflects

open EffectLedger

variable {b : TerminalEffectBroker} {l : EffectLedger}

theorem initial : Reflects {} {} where
  target := rfl
  since := Nat.le_refl _
  addressed := fun n post _ h => by simp at h
  clipboard := rfl
  notifications := rfl
  suffix := List.suffix_refl _
  delivered := nofun
  once := List.nodup_nil

theorem setTarget (h : Reflects b l) (target : Option AttachmentId) :
    Reflects (b.setTarget target) (l.setTarget target) := by
  unfold TerminalEffectBroker.setTarget EffectLedger.setTarget
  rw [h.target]
  split
  · -- nothing was published since the target changed
    have hnone : ∀ kind,
        EffectLedger.published { l with target, since := l.posts.length } kind = [] := by
      intro kind
      refine List.eq_nil_iff_forall_not_mem.2 fun n hn => ?_
      exact absurd (published_lt hn) (Nat.not_lt.2 (mem_published.1 hn).1)
    have hclipboard : EffectLedger.clipboard { l with target, since := l.posts.length } = none := by
      rw [EffectLedger.clipboard, hnone]
      rfl
    have hnotifications :
        EffectLedger.notifications { l with target, since := l.posts.length } = [] := by
      rw [EffectLedger.notifications, hnone]
      rfl
    refine { h with
      target := rfl, since := Nat.le_refl _, addressed := ?_, clipboard := ?_, notifications := ?_,
      suffix := ?_ }
    · intro n post hn hpost
      exact absurd (List.getElem?_eq_some_iff.1 hpost).1 (Nat.not_lt.2 hn)
    · rw [hclipboard]
      rfl
    · rw [hnotifications]
      rfl
    · rw [hnotifications]
      exact List.nil_suffix
  · exact h

theorem not_taken (h : Reflects b l) : l.taken l.posts.length = false := by
  rw [Bool.eq_false_iff]
  intro htaken
  obtain ⟨d, hd, hn⟩ := List.mem_map.1 (taken_iff.1 htaken)
  obtain ⟨post, hpost, -⟩ := h.delivered d hd
  have hlt := (List.getElem?_eq_some_iff.1 hpost).1
  omega

theorem post_frame (h : Reflects b l) (effect : TerminalHostEffect) {pending : TerminalHostEffects}
    (hclipboard : pending.clipboard.map (some ∘ TerminalHostEffect.clipboardWrite) =
      (l.post effect).clipboard.map (l.post effect).effect)
    (hnotifications : pending.notifications.map (some ∘ TerminalHostEffect.notification) =
      (l.post effect).notifications.map (l.post effect).effect)
    (hsuffix : (l.post effect).notifications <:+
      latest maxPendingTerminalNotifications ((l.post effect).published isNotification)) :
    Reflects { b with pending } (l.post effect) where
  target := h.target
  since := h.since.trans (by simp [post])
  addressed := by
    intro n post hn hpost
    rw [EffectLedger.post, List.getElem?_append] at hpost
    split at hpost
    · exact h.addressed n post hn hpost
    · rw [List.getElem?_singleton] at hpost
      split at hpost
      · cases hpost
        rfl
      · cases hpost
  clipboard := hclipboard
  notifications := hnotifications
  suffix := hsuffix
  delivered := by
    intro d hd
    obtain ⟨post, hpost, htarget⟩ := h.delivered d hd
    refine ⟨post, ?_, htarget⟩
    exact (List.getElem?_append_left (List.getElem?_eq_some_iff.1 hpost).1).trans hpost
  once := h.once

theorem clipboard_effects (h : Reflects b l) (effect : TerminalHostEffect) :
    l.clipboard.map (l.post effect).effect =
      b.pending.clipboard.map (some ∘ TerminalHostEffect.clipboardWrite) := by
  rw [h.clipboard]
  refine Option.map_congr fun n hn => effect_post (published_lt (clipboard_mem hn).1) effect

theorem notification_effects (h : Reflects b l) (effect : TerminalHostEffect) :
    l.notifications.map (l.post effect).effect =
      b.pending.notifications.map (some ∘ TerminalHostEffect.notification) := by
  rw [h.notifications]
  exact List.map_congr_left fun n hn => effect_post (published_lt (notifications_mem hn).1) effect

theorem post_untargeted (h : Reflects b l) (hnone : l.target = none)
    (effect : TerminalHostEffect) : Reflects b (l.post effect) := by
  have hpublished : ∀ kind, (l.post effect).published kind = l.published kind := by
    intro kind
    rw [published_post h.since, hnone]
    exact List.append_nil _
  have hclipboard : (l.post effect).clipboard = l.clipboard := by
    rw [EffectLedger.clipboard, hpublished]
    rfl
  have hnotifications : (l.post effect).notifications = l.notifications := by
    rw [EffectLedger.notifications, hpublished]
    rfl
  refine h.post_frame effect ?_ ?_ ?_
  · rw [hclipboard, h.clipboard_effects]
  · rw [hnotifications, h.notification_effects]
  · rw [hnotifications, hpublished]
    exact h.suffix

theorem push_clipboard (h : Reflects b l) (hsome : l.target.isSome = true)
    (write : TerminalClipboardWrite) :
    Reflects { b with pending := b.pending.push (.clipboardWrite write) }
      (l.post (.clipboardWrite write)) := by
  have hclipboard : (l.post (.clipboardWrite write)).clipboard = some l.posts.length := by
    have hlatest : (l.post (.clipboardWrite write)).published isClipboard =
        l.published isClipboard ++ [l.posts.length] := by
      rw [published_post h.since, hsome]
      rfl
    rw [EffectLedger.clipboard, hlatest, List.getLast?_concat, Option.filter_some_pos]
    have hnew := h.not_taken
    unfold taken at hnew
    simpa [taken, post] using hnew
  have hpublished : (l.post (.clipboardWrite write)).published isNotification =
      l.published isNotification := by
    rw [published_post h.since, hsome]
    exact List.append_nil _
  have hnotifications : (l.post (.clipboardWrite write)).notifications = l.notifications := by
    rw [EffectLedger.notifications, hpublished]
    rfl
  refine h.post_frame _ ?_ ?_ ?_
  · rw [hclipboard, Option.map_some, effect_post_self]
    rfl
  · rw [hnotifications, h.notification_effects]
    rfl
  · rw [hnotifications, hpublished]
    exact h.suffix

theorem push_notification (h : Reflects b l) (hsome : l.target.isSome = true)
    (notification : TerminalNotification) :
    Reflects { b with pending := b.pending.push (.notification notification) }
      (l.post (.notification notification)) := by
  have hclipboard : (l.post (.notification notification)).clipboard = l.clipboard := by
    have hpublished : (l.post (.notification notification)).published isClipboard =
        l.published isClipboard := by
      rw [published_post h.since, hsome]
      exact List.append_nil _
    rw [EffectLedger.clipboard, hpublished]
    rfl
  have hpublished : (l.post (.notification notification)).published isNotification =
      l.published isNotification ++ [l.posts.length] := by
    rw [published_post h.since, hsome]
    rfl
  obtain ⟨hleft, hsuffix⟩ := latest_taken (p := fun n => !l.taken n) (a := l.posts.length)
    (by decide : 0 < maxPendingTerminalNotifications) published_nodup rfl h.suffix
    (by rw [h.not_taken]; rfl)
  rw [← hpublished] at hleft hsuffix
  have hnotifications : (l.post (.notification notification)).notifications = _ := hleft
  have hlength : l.notifications.length = b.pending.notifications.length := by
    rw [← List.length_map l.effect, ← h.notifications, List.length_map]
  refine h.post_frame _ ?_ ?_ ?_
  · rw [hclipboard, h.clipboard_effects]
    rfl
  · rw [hnotifications]
    change List.map _ (TerminalHostEffects.pushNotification _ _) = _
    unfold TerminalHostEffects.pushNotification
    change _ = List.map _ ((if l.notifications.length = _ then l.notifications.tail else
      l.notifications) ++ _)
    rw [hlength, List.map_append, List.map_append]
    congr 1
    · split
      · rw [List.map_tail, List.map_tail, h.notification_effects]
      · rw [h.notification_effects]
    · rw [List.map_singleton, List.map_singleton, effect_post_self]
      rfl
  · rw [hnotifications]
    exact hsuffix

theorem push (h : Reflects b l) (hsome : l.target.isSome = true) (effect : TerminalHostEffect) :
    Reflects { b with pending := b.pending.push effect } (l.post effect) := by
  cases effect with
  | clipboardWrite write => exact h.push_clipboard hsome write
  | notification notification => exact h.push_notification hsome notification

theorem publish (h : Reflects b l) (effects : TerminalHostEffects) :
    Reflects (b.publish effects)
      ((TerminalEffectBroker.drain effects).foldl EffectLedger.post l) := by
  unfold TerminalEffectBroker.publish
  generalize TerminalEffectBroker.drain effects = effects
  split
  · rename_i hnone
    rw [h.target, Option.isNone_iff_eq_none] at hnone
    induction effects generalizing l with
    | nil => exact h
    | cons effect effects ih => exact ih (h.post_untargeted hnone effect) hnone
  · rename_i hsome
    rw [h.target, Option.isNone_iff_eq_none] at hsome
    replace hsome := Option.isSome_iff_ne_none.2 hsome
    induction effects generalizing b l with
    | nil => exact h
    | cons effect effects ih => exact ih (h.push hsome effect) hsome

variable {id : AttachmentId} {n : Nat}

theorem deliver_frame (h : Reflects b l) (hid : l.target = some id) (hn : n ∈ l.outstanding)
    {pending : TerminalHostEffects}
    (hclipboard : pending.clipboard.map (some ∘ TerminalHostEffect.clipboardWrite) =
      (l.deliver id n).clipboard.map l.effect)
    (hnotifications : pending.notifications.map (some ∘ TerminalHostEffect.notification) =
      (l.deliver id n).notifications.map l.effect)
    (hsuffix : (l.deliver id n).notifications <:+
      latest maxPendingTerminalNotifications (l.published isNotification)) :
    Reflects { b with pending } (l.deliver id n) where
  target := h.target
  since := h.since
  addressed := h.addressed
  clipboard := hclipboard
  notifications := hnotifications
  suffix := hsuffix
  delivered := by
    intro d hd
    rcases List.mem_append.1 hd with hd | hd
    · exact h.delivered d hd
    · rw [List.mem_singleton.1 hd]
      obtain ⟨-, hsince, post, hpost, -⟩ := outstanding_mem hn
      exact ⟨post, hpost, (h.addressed n post hsince hpost).trans hid⟩
  once := by
    rw [EffectLedger.deliver, List.map_append, List.map_singleton]
    refine List.nodup_append'.2 ⟨h.once, List.nodup_singleton _, ?_⟩
    intro m hm hm'
    rw [List.mem_singleton.1 hm', ← taken_iff, (outstanding_mem hn).1] at hm
    cases hm

theorem taken_deliver (m : Nat) : (l.deliver id n).taken m = (l.taken m || decide (n = m)) := by
  rw [taken, EffectLedger.deliver, List.any_append]
  simp [taken]

theorem take_next (h : Reflects b l) (hid : l.target = some id) {rest : List Nat}
    (hout : l.outstanding = n :: rest) :
    (b.takeFor id).1 = l.effect n ∧ Reflects (b.takeFor id).2 (l.deliver id n) ∧
      (l.deliver id n).outstanding = rest := by
  have hmem : n ∈ l.outstanding := by rw [hout]; exact List.mem_cons_self
  unfold TerminalEffectBroker.takeFor
  rw [if_pos (h.target.trans hid)]
  cases hclip : l.clipboard with
  | some first =>
    -- the clipboard write goes first and leaves the notifications alone
    have hfirst : first = n ∧ l.notifications = rest := by
      rw [outstanding, hclip] at hout
      exact List.cons.inj hout
    obtain ⟨rfl, hrest⟩ := hfirst
    have hwrite := h.clipboard
    rw [hclip, Option.map_some] at hwrite
    obtain ⟨write, hsome, heffect⟩ := Option.map_eq_some_iff.1 hwrite
    have hclipboard : (l.deliver id first).clipboard = none := by
      have hlast := (Option.filter_eq_some_iff.1 hclip).1
      change ((l.published isClipboard).getLast?).filter _ = none
      rw [hlast, Option.filter_some_neg]
      rw [taken_deliver]
      simp
    have hnotifications : (l.deliver id first).notifications = l.notifications := by
      refine List.filter_congr fun m hm => ?_
      have hne : first ≠ m := by
        rintro rfl
        obtain ⟨-, post, hpost, -, hkind⟩ := mem_published.1 (clipboard_mem hclip).1
        obtain ⟨-, post', hpost', -, hkind'⟩ := mem_published.1 (latest_suffix.subset hm)
        obtain rfl : post = post' := Option.some.inj (hpost.symm.trans hpost')
        rw [isNotification, hkind] at hkind'
        cases hkind'
      rw [taken_deliver, decide_eq_false hne, Bool.or_false]
    refine ⟨?_, h.deliver_frame hid hmem ?_ ?_ ?_, ?_⟩
    · rw [← heffect]
      simp only [TerminalHostEffects.pop, hsome]
      rfl
    · rw [hclipboard]
      simp only [TerminalHostEffects.pop, hsome]
      rfl
    · rw [hnotifications, ← h.notifications]
      simp only [TerminalHostEffects.pop, hsome]
    · rw [hnotifications]
      exact h.suffix
    · rw [outstanding, hclipboard, hnotifications, hrest]
      rfl
  | none =>
    have hleft : l.notifications = n :: rest := by
      rw [outstanding, hclip] at hout
      exact hout
    have hwrite : b.pending.clipboard = none := by
      have hwrite := h.clipboard
      rwa [hclip, Option.map_none, Option.map_eq_none_iff] at hwrite
    obtain ⟨first, queue, hqueue, heffect, hqueued⟩ : ∃ first queue,
        b.pending.notifications = first :: queue ∧ some (.notification first) = l.effect n ∧
          queue.map (some ∘ TerminalHostEffect.notification) = rest.map l.effect := by
      have hqueue := h.notifications
      rw [hleft] at hqueue
      cases hpending : b.pending.notifications with
      | nil => rw [hpending] at hqueue; cases hqueue
      | cons first queue =>
        rw [hpending] at hqueue
        exact ⟨first, queue, rfl, List.cons.inj hqueue⟩
    have hclipboard : (l.deliver id n).clipboard = none := by
      rw [Option.eq_none_iff_forall_ne_some]
      intro m hm
      have htaken := (clipboard_mem hm).2
      have hlast := (Option.filter_eq_some_iff.1 hm).1
      rw [taken_deliver, Bool.or_eq_false_iff] at htaken
      have hold : l.clipboard = some m :=
        Option.filter_eq_some_iff.2 ⟨hlast, by rw [htaken.1]; rfl⟩
      rw [hclip] at hold
      cases hold
    have hnodup : (n :: rest).Nodup := by
      rw [← hleft]
      exact (published_nodup.sublist latest_suffix.sublist).filter _
    have hnotifications : (l.deliver id n).notifications = rest := by
      have hagain : (l.deliver id n).notifications =
          l.notifications.filter fun m => !decide (n = m) := by
        rw [EffectLedger.notifications, EffectLedger.notifications, List.filter_filter]
        refine List.filter_congr fun m _ => ?_
        rw [taken_deliver, Bool.not_or, Bool.and_comm]
      rw [hagain, hleft, List.filter_cons_of_neg (by simp), List.filter_eq_self]
      intro m hm
      have hne : n ≠ m := fun heq => (List.nodup_cons.1 hnodup).1 (heq ▸ hm)
      simp [hne]
    refine ⟨?_, h.deliver_frame hid hmem ?_ ?_ ?_, ?_⟩
    · rw [← heffect]
      simp only [TerminalHostEffects.pop, hwrite, hqueue]
    · rw [hclipboard]
      simp only [TerminalHostEffects.pop, hwrite, hqueue]
      rfl
    · rw [hnotifications, ← hqueued]
      simp only [TerminalHostEffects.pop, hwrite, hqueue]
    · rw [hnotifications]
      refine List.IsSuffix.trans ?_ h.suffix
      rw [hleft]
      exact List.suffix_cons n rest
    · rw [outstanding, hclipboard, hnotifications]
      rfl

theorem take_nothing (h : Reflects b l) (hnone : l.target = some id → l.outstanding = []) :
    (b.takeFor id).1 = none ∧ (b.takeFor id).2 = b := by
  unfold TerminalEffectBroker.takeFor
  split
  · rename_i hid
    have hout := hnone (h.target.symm.trans hid)
    rw [outstanding, List.append_eq_nil_iff] at hout
    have hclip := h.clipboard
    have hqueue := h.notifications
    rw [Option.toList_eq_nil_iff.1 hout.1, Option.map_none, Option.map_eq_none_iff] at hclip
    rw [hout.2, List.map_nil, List.map_eq_nil_iff] at hqueue
    have hpop : b.pending.pop = (none, b.pending) := by
      simp only [TerminalHostEffects.pop, hclip, hqueue]
    rw [hpop]
    exact ⟨rfl, rfl⟩
  · exact ⟨rfl, rfl⟩

theorem takeFor (h : Reflects b l) (id : AttachmentId) :
    Reflects (b.takeFor id).2 (l.takeFor id) := by
  unfold EffectLedger.takeFor
  split
  · rename_i n rest hout
    split
    · rename_i hid
      exact (h.take_next hid hout).2.1
    · rename_i hid
      rw [(h.take_nothing fun htarget => absurd htarget hid).2]
      exact h
  · rename_i hout
    rw [(h.take_nothing fun _ => hout).2]
    exact h

end Reflects

/-! ## Over runs -/

/-- Only what was published since is delivered from now on. -/
def EffectLedger.Later (l l' : EffectLedger) : Prop :=
  l.since ≤ l'.since ∧ ∃ more, l'.deliveries = l.deliveries ++ more ∧ ∀ d ∈ more, l.since ≤ d.2

namespace EffectLedger

variable {l l' l'' : EffectLedger}

theorem Later.refl (l : EffectLedger) : Later l l :=
  ⟨Nat.le_refl _, [], (List.append_nil _).symm, nofun⟩

theorem Later.trans (h : Later l l') (h' : Later l' l'') : Later l l'' := by
  obtain ⟨hsince, more, hmore, hfrom⟩ := h
  obtain ⟨hsince', more', hmore', hfrom'⟩ := h'
  refine ⟨hsince.trans hsince', more ++ more', by rw [hmore', hmore, List.append_assoc], ?_⟩
  intro d hd
  rcases List.mem_append.1 hd with hd | hd
  · exact hfrom d hd
  · exact hsince.trans (hfrom' d hd)

theorem posts_later (l : EffectLedger) (effects : List TerminalHostEffect) :
    Later l (effects.foldl post l) := by
  induction effects generalizing l with
  | nil => exact .refl l
  | cons effect effects ih =>
    have hpost : Later l (l.post effect) := .refl l
    exact hpost.trans (ih _)

theorem takeFor_later (l : EffectLedger) (id : AttachmentId) : Later l (l.takeFor id) := by
  unfold takeFor
  split
  · rename_i n rest hout
    split
    · refine ⟨Nat.le_refl _, [(id, n)], rfl, fun d hd => ?_⟩
      rw [List.mem_singleton.1 hd]
      exact (outstanding_mem (by rw [hout]; exact List.mem_cons_self)).2.1
    · exact .refl l
  · exact .refl l

end EffectLedger

/-- What the takes returned, by the ledger. -/
def Brokered.Accounted (s : Brokered) : Prop :=
  s.received.map (fun r => (r.1, some r.2)) =
    s.ledger.deliveries.map fun d => (d.1, s.ledger.effect d.2)

namespace Brokered

open EffectLedger

variable {s : Brokered}

theorem posts_effect {l : EffectLedger} {n : Nat} (hn : n < l.posts.length)
    (effects : List TerminalHostEffect) :
    (effects.foldl EffectLedger.post l).effect n = l.effect n := by
  induction effects generalizing l with
  | nil => rfl
  | cons effect effects ih =>
    rw [List.foldl_cons, ih (by simp only [EffectLedger.post, List.length_append]; omega),
      effect_post hn]

theorem posts_deliveries (l : EffectLedger) (effects : List TerminalHostEffect) :
    (effects.foldl EffectLedger.post l).deliveries = l.deliveries := by
  induction effects generalizing l with
  | nil => rfl
  | cons effect effects ih => exact ih (l.post effect)

theorem step_take_next (hr : Reflects s.broker s.ledger) {id : AttachmentId}
    (hid : s.ledger.target = some id) {n : Nat} {rest : List Nat}
    (hout : s.ledger.outstanding = n :: rest) :
    ∃ effect, s.ledger.effect n = some effect ∧ s.step (.takeFor id) =
      ⟨(s.broker.takeFor id).2, s.received ++ [(id, effect)], s.ledger.deliver id n⟩ := by
  have htake := (hr.take_next hid hout).1
  obtain ⟨-, -, post, hpost, -⟩ := outstanding_mem (n := n) (by rw [hout]; exact List.mem_cons_self)
  have heffect : s.ledger.effect n = some post.effect := by
    rw [EffectLedger.effect, hpost]
    rfl
  refine ⟨post.effect, heffect, ?_⟩
  rw [step, htake, heffect, EffectLedger.takeFor, hout]
  simp only [if_pos hid, Option.toList_some, List.map_singleton]

theorem step_take_nothing (hr : Reflects s.broker s.ledger) {id : AttachmentId}
    (hnone : s.ledger.target = some id → s.ledger.outstanding = []) :
    s.step (.takeFor id) = s := by
  have htake := hr.take_nothing hnone
  have hledger : s.ledger.takeFor id = s.ledger := by
    unfold EffectLedger.takeFor
    split
    · rename_i n rest hout
      rw [if_neg]
      intro hid
      rw [hnone hid] at hout
      cases hout
    · rfl
  rw [step, htake.1, htake.2, hledger]
  simp

theorem step_accounted (hr : Reflects s.broker s.ledger) (ha : s.Accounted) (event : BrokerEvent) :
    (s.step event).Accounted := by
  cases event with
  | setTarget target =>
    unfold Accounted step EffectLedger.setTarget
    dsimp only
    split <;> exact ha
  | publish effects =>
    unfold Accounted step
    dsimp only
    rw [posts_deliveries, ha]
    refine List.map_congr_left fun d hd => ?_
    obtain ⟨post, hpost, -⟩ := hr.delivered d hd
    rw [posts_effect (List.getElem?_eq_some_iff.1 hpost).1]
  | takeFor id =>
    by_cases hnone : s.ledger.target = some id → s.ledger.outstanding = []
    · rwa [step_take_nothing hr hnone]
    · obtain ⟨hid, hsome⟩ := Classical.not_imp.1 hnone
      obtain ⟨n, rest, hout⟩ := List.exists_cons_of_ne_nil hsome
      obtain ⟨effect, heffect, hstep⟩ := step_take_next hr hid hout
      rw [hstep]
      unfold Accounted at ha ⊢
      rw [List.map_append, ha, EffectLedger.deliver, List.map_append, List.map_singleton,
        List.map_singleton, ← heffect]
      rfl

theorem step_reflects (hr : Reflects s.broker s.ledger) (event : BrokerEvent) :
    Reflects (s.step event).broker (s.step event).ledger := by
  cases event with
  | setTarget target => exact hr.setTarget target
  | publish effects => exact hr.publish effects
  | takeFor id => exact hr.takeFor id

theorem step_later (hr : Reflects s.broker s.ledger) (event : BrokerEvent) :
    Later s.ledger (s.step event).ledger := by
  cases event with
  | setTarget target =>
    unfold step EffectLedger.setTarget
    dsimp only
    split
    · exact ⟨hr.since, [], (List.append_nil _).symm, nofun⟩
    · exact .refl _
  | publish effects => exact posts_later _ _
  | takeFor id => exact takeFor_later _ _

theorem run_kept (hr : Reflects s.broker s.ledger) (ha : s.Accounted) (events : List BrokerEvent) :
    Reflects (s.run events).broker (s.run events).ledger ∧ (s.run events).Accounted ∧
      Later s.ledger (s.run events).ledger := by
  induction events generalizing s with
  | nil => exact ⟨hr, ha, .refl _⟩
  | cons event events ih =>
    obtain ⟨hr', ha', hlater⟩ := ih (step_reflects hr event) (step_accounted hr ha event)
    exact ⟨hr', ha', (step_later hr event).trans hlater⟩

theorem run_takes (hr : Reflects s.broker s.ledger) {id : AttachmentId}
    (hid : s.broker.target = some id) (count : Nat) :
    (s.run (List.replicate count (.takeFor id))).received.map (fun r => (r.1, some r.2)) =
      s.received.map (fun r => (r.1, some r.2)) ++
        (s.ledger.outstanding.take count).map fun n => (id, s.ledger.effect n) := by
  rw [hr.target] at hid
  induction count generalizing s with
  | zero => exact (List.append_nil _).symm
  | succ count ih =>
    rw [List.replicate_succ]
    change ((s.step _).run _).received.map _ = _
    cases hout : s.ledger.outstanding with
    | nil =>
      rw [step_take_nothing hr fun _ => hout, ih hr hid, hout, List.take_nil, List.take_nil]
    | cons n rest =>
      obtain ⟨effect, heffect, hstep⟩ := step_take_next hr hid hout
      obtain ⟨-, hr', hrest⟩ := hr.take_next hid hout
      rw [hstep, ih, hrest, List.take_succ_cons, List.map_append, List.append_assoc,
        List.map_cons (l := rest.take count), heffect]
      · rfl
      · exact hr'
      · exact hid

end Brokered

/-- Every effect is delivered at most once, and only to the attachment that was the target when it
was published; a new target discards what was pending, for good; and the target receives the latest
clipboard write since it became the target, unless it was taken, and then, in the order of their
publication, those of the last notifications since then that were not taken. -/
theorem effects_owned (events : List BrokerEvent) :
    let s := Brokered.run {} events
    s.received.map (fun r => (r.1, some r.2)) =
        s.ledger.deliveries.map (fun d => (d.1, s.ledger.effect d.2)) ∧
      (s.ledger.deliveries.map (·.2)).Nodup ∧
      (∀ d ∈ s.ledger.deliveries, ∃ post,
        s.ledger.posts[d.2]? = some post ∧ post.target = some d.1) ∧
      (∀ target, target ≠ s.broker.target →
        (s.broker.setTarget target).pending = {} ∧
          ∀ events' : List BrokerEvent, ∃ more,
            ((s.step (.setTarget target)).run events').ledger.deliveries =
                s.ledger.deliveries ++ more ∧
              ∀ d ∈ more, s.ledger.posts.length ≤ d.2) ∧
      (∀ id, s.broker.target = some id → ∀ count : Nat,
        (s.run (List.replicate count (.takeFor id))).received.map (fun r => (r.1, some r.2)) =
          s.received.map (fun r => (r.1, some r.2)) ++
            ((s.ledger.clipboard.toList ++ s.ledger.notifications).take count).map fun n =>
              (id, s.ledger.effect n)) ∧
      ∀ id, s.broker.target ≠ some id → s.broker.takeFor id = (none, s.broker) := by
  intro s
  obtain ⟨hr, ha, -⟩ := Brokered.run_kept (s := {}) Reflects.initial rfl events
  refine ⟨ha, hr.once, hr.delivered, ?_, ?_, ?_⟩
  · intro target hne
    have hbroker : s.broker.setTarget target = { target } := if_pos hne.symm
    refine ⟨by rw [hbroker], fun events' => ?_⟩
    obtain ⟨-, -, -, hmore⟩ := Brokered.run_kept (Brokered.step_reflects hr (.setTarget target))
      (Brokered.step_accounted hr ha _) events'
    have hledger : (s.step (.setTarget target)).ledger =
        { s.ledger with target, since := s.ledger.posts.length } := by
      refine if_pos ?_
      rw [← hr.target]
      exact hne.symm
    rw [hledger] at hmore
    exact hmore
  · exact fun id hid count => Brokered.run_takes hr hid count
  · exact fun id hid => if_neg hid

/-- A clipboard write overtakes the notifications published before it. -/
theorem clipboard_overtakes_notification :
    let bell : TerminalNotification := ⟨none, ['!'], by decide, by decide, by decide⟩
    let write : TerminalClipboardWrite := ⟨['x'], by decide, by decide, by decide⟩
    let s := Brokered.run {}
      [.setTarget (some 1), .publish { notifications := [bell] }, .publish { clipboard := write },
        .takeFor 1, .takeFor 1]
    s.ledger.posts = [⟨some 1, .notification bell⟩, ⟨some 1, .clipboardWrite write⟩] ∧
      s.received = [(1, .clipboardWrite write), (1, .notification bell)] := by
  decide +kernel

end Voytty.Daemon
