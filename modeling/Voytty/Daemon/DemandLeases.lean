import Voytty.Daemon.Replay
import Voytty.Lib.Transition

/-!
# Demands for a peer and their transient routes

Every open demand keeps its peer's connection wanted and lends it the routes of
its ticket (`DemandState` of `connection_broker.rs`). A call moves the counter
and the route table one after the other, and other calls may come between:
`Demands.Step` has the steps on each, `DemandState.acquire` and `release` the
calls as they run alone.
-/

namespace Voytty.Daemon

open Voytty.Lib Relation

variable {ρ : Type} [DecidableEq ρ]

/-! ## The route table -/

namespace TransientRouteLeases

/-- Writes the count of the first entry for `route`. -/
def setCount (route : ρ) (count : Nat) : List (ρ × Nat) → List (ρ × Nat)
  | [] => []
  | p :: ordered =>
    if p.1 = route then (p.1, count) :: ordered else p :: setCount route count ordered

def countAll : List ρ → List (ρ × Nat) → Except DaemonError Unit × List (ρ × Nat)
  | [], ordered => (.ok (), ordered)
  | route :: routes, ordered =>
    match ordered.find? (·.1 = route) with
    | some p =>
      match checkedNext p.2 with
      | some count => countAll routes (setCount route count ordered)
      | none => (.error (resourceError "transient route reference count exhausted"), ordered)
    | none => countAll routes (ordered ++ [(route, 1)])

def snapshot (ordered : List (ρ × Nat)) : List ρ := ordered.map (·.1)

/-- The routes of `unique` that have no entry yet. -/
def additional (unique : List ρ) (ordered : List (ρ × Nat)) : Nat :=
  (unique.filter (· ∉ snapshot ordered)).length

def acquire (ordered : List (ρ × Nat)) (routes : List ρ) (maximum : Nat) :
    Except DaemonError (List ρ) × List (ρ × Nat) :=
  let unique := routes.eraseDups
  if 2 ^ 64 ≤ ordered.length + additional unique ordered then
    (.error (resourceError "concurrent transient route count exhausted its address space"), ordered)
  else if ordered.length + additional unique ordered > maximum then
    (.error (resourceError "concurrent transient route leases exceed the peer route bound"), ordered)
  else if unique.any fun route => (ordered.find? (·.1 = route)).any (·.2 = 2 ^ 64 - 1) then
    (.error (resourceError "transient route reference count exhausted"), ordered)
  else
    match countAll unique ordered with
    | (.ok (), ordered) => (.ok unique, ordered)
    | (.error e, ordered) => (.error e, ordered)

def lower (ordered : List (ρ × Nat)) (route : ρ) : List (ρ × Nat) :=
  match ordered.find? (·.1 = route) with
  | some p => setCount route (p.2 - 1) ordered
  | none => ordered

def release (ordered : List (ρ × Nat)) (routes : List ρ) : List (ρ × Nat) :=
  (routes.foldl lower ordered).filter (0 < ·.2)

/-- The table that lists `keys`, each with the count `f` gives it. -/
def table (keys : List ρ) (f : ρ → Nat) : List (ρ × Nat) := keys.map fun route => (route, f route)

variable {keys routes : List ρ} {f g : ρ → Nat} {route : ρ} {n : Nat}

omit [DecidableEq ρ] in
@[simp] theorem snapshot_table : snapshot (table keys f) = keys := by
  simp [snapshot, table, Function.comp_def]

omit [DecidableEq ρ] in
@[simp] theorem length_table : (table keys f).length = keys.length := List.length_map ..

omit [DecidableEq ρ] in
theorem table_congr (h : ∀ route ∈ keys, f route = g route) : table keys f = table keys g :=
  List.map_congr_left fun route hr => by rw [h route hr]

theorem find_table : (table keys f).find? (·.1 = route) =
    if route ∈ keys then some (route, f route) else none := by
  induction keys with
  | nil => rfl
  | cons k keys ih =>
    by_cases hk : k = route
    · simp [table, hk]
    · simpa [table, hk, Ne.symm hk] using ih

theorem setCount_table (hn : keys.Nodup) :
    setCount route n (table keys f) = table keys (Function.update f route n) := by
  induction keys with
  | nil => rfl
  | cons k keys ih =>
    obtain ⟨hk, hn⟩ := List.nodup_cons.mp hn
    by_cases he : k = route
    · subst he
      have hrest : table keys f = table keys (Function.update f k n) :=
        table_congr fun r hr => (Function.update_of_ne (ne_of_mem_of_not_mem hr hk) n f).symm
      simpa [table, setCount] using hrest
    · simpa [table, setCount, he] using ih hn

/-- Counting routes once each, none of them at its limit: what is new comes last. -/
theorem countAll_table (hn : keys.Nodup) (hzero : ∀ route ∉ keys, f route = 0)
    (hr : routes.Nodup) (hroom : ∀ route ∈ routes, f route + 1 < 2 ^ 64) :
    countAll routes (table keys f) = (.ok (), table (keys ++ routes.filter (· ∉ keys))
      fun route => f route + if route ∈ routes then 1 else 0) := by
  induction routes generalizing keys f with
  | nil => simp [countAll]
  | cons route routes ih =>
    obtain ⟨hout, hr⟩ := List.nodup_cons.mp hr
    have hroom' : ∀ r ∈ routes, Function.update f route (f route + 1) r + 1 < 2 ^ 64 := fun r h => by
      rw [Function.update_of_ne (ne_of_mem_of_not_mem h hout)]
      exact hroom r (List.mem_cons_of_mem route h)
    have hsum : (fun r => Function.update f route (f route + 1) r + if r ∈ routes then 1 else 0) =
        fun r => f r + if r ∈ route :: routes then 1 else 0 := by
      funext r
      by_cases he : r = route
      · simp [he, hout]
      · simp [he]
    rw [countAll, find_table]
    by_cases hmem : route ∈ keys
    · have hnext : checkedNext (f route) = some (f route + 1) :=
        if_pos (hroom route List.mem_cons_self)
      simp only [hmem, if_pos, hnext]
      rw [setCount_table hn, ih hn (fun r h => ?_) hr hroom', hsum,
        List.filter_cons_of_neg (by simpa using hmem)]
      rw [Function.update_of_ne (ne_of_mem_of_not_mem hmem h).symm]
      exact hzero r h
    · have hpush : table keys f ++ [(route, 1)] =
          table (keys ++ [route]) (Function.update f route (f route + 1)) := by
        rw [table_congr fun r h =>
          (Function.update_of_ne (ne_of_mem_of_not_mem h hmem) (f route + 1) f).symm]
        simp [table, hzero route hmem]
      simp only [hmem, if_neg, not_false_eq_true]
      rw [hpush, ih ?_ (fun r h => ?_) hr hroom', hsum, List.filter_cons_of_pos (by simpa using hmem),
        List.append_assoc, List.singleton_append, List.filter_congr fun r h => ?_]
      · simp [ne_of_mem_of_not_mem h hout]
      · exact List.nodup_append'.mpr
          ⟨hn, List.nodup_singleton _, List.disjoint_singleton.mpr hmem⟩
      · simp only [List.mem_append, List.mem_singleton, not_or] at h
        rw [Function.update_of_ne h.2]
        exact hzero r h.1

theorem nodup_eraseDups (routes : List ρ) : routes.eraseDups.Nodup := by
  induction h : routes.length using Nat.strong_induction_on generalizing routes with
  | _ n ih =>
    cases routes with
    | nil => simp
    | cons route routes =>
      rw [List.eraseDups_cons, List.nodup_cons]
      have hle := List.length_filter_le (fun r => !r == route) routes
      exact ⟨by simp, ih _ (by simp only [List.length_cons] at h; omega) _ rfl⟩

/-- A refused acquisition leaves the table as it is; a granted one counts each of its routes once. -/
theorem acquire_table (hn : keys.Nodup) (hzero : ∀ route ∉ keys, f route = 0)
    (hf : ∀ route, f route < 2 ^ 64) (routes : List ρ) (maximum : Nat) :
    (∃ e, acquire (table keys f) routes maximum = (.error e, table keys f)) ∨
      acquire (table keys f) routes maximum =
        (.ok routes.eraseDups, table (keys ++ routes.eraseDups.filter (· ∉ keys))
          fun route => f route + if route ∈ routes.eraseDups then 1 else 0) ∧
      (keys ++ routes.eraseDups.filter (· ∉ keys)).length ≤ maximum := by
  unfold acquire
  dsimp only
  split
  · exact .inl ⟨_, rfl⟩
  split
  · exact .inl ⟨_, rfl⟩
  rename_i hbound
  split
  · exact .inl ⟨_, rfl⟩
  rename_i hlimit
  refine .inr ⟨?_, by simpa [additional] using hbound⟩
  rw [countAll_table hn hzero (nodup_eraseDups routes) fun route hr => ?_]
  have hne : f route ≠ 2 ^ 64 - 1 := fun he => hlimit (List.any_eq_true.mpr ⟨route, hr, by
    have hmem : route ∈ keys := by
      by_contra hmem
      simp [hzero route hmem] at he
    simp [find_table, hmem, he]⟩)
  have := hf route
  omega

theorem lower_table (hn : keys.Nodup) (route : ρ) :
    lower (table keys f) route = table keys (Function.update f route (f route - 1)) := by
  rw [lower, find_table]
  by_cases hmem : route ∈ keys
  · simp only [hmem, if_pos]
    exact setCount_table hn
  · simp only [hmem, if_false]
    exact table_congr fun r hr => (Function.update_of_ne (ne_of_mem_of_not_mem hr hmem) _ f).symm

theorem release_table (hn : keys.Nodup) (hr : routes.Nodup) :
    release (table keys f) routes =
      table (keys.filter fun route => 0 < f route - if route ∈ routes then 1 else 0)
        fun route => f route - if route ∈ routes then 1 else 0 := by
  have hall : routes.foldl lower (table keys f) =
      table keys fun route => f route - if route ∈ routes then 1 else 0 := by
    induction routes generalizing f with
    | nil => simp
    | cons route routes ih =>
      obtain ⟨hout, hr⟩ := List.nodup_cons.mp hr
      rw [List.foldl_cons, lower_table hn, ih hr]
      congr 1
      funext r
      by_cases he : r = route
      · simp [he, hout]
      · simp [he]
  rw [release, hall, table, List.filter_map]
  rfl

def holders (leases : List (List ρ)) (route : ρ) : Nat := leases.countP (route ∈ ·)

/-- The table lists the routes that a lease holds, each with the number of its holders. -/
def Lists (maximum : Nat) (leases : List (List ρ)) (ordered : List (ρ × Nat)) : Prop :=
  ∃ keys, ordered = table keys (holders leases) ∧ keys.Nodup ∧
    (∀ route, route ∈ keys ↔ 0 < holders leases route) ∧ keys.length ≤ maximum

variable {maximum : Nat} {leases : List (List ρ)} {ordered : List (ρ × Nat)} {lease : List ρ}

theorem Lists.acquire (h : Lists maximum leases ordered) (hword : leases.length < 2 ^ 64)
    (routes : List ρ) :
    (∃ e, acquire ordered routes maximum = (.error e, ordered)) ∨
      ∃ ordered', acquire ordered routes maximum = (.ok routes.eraseDups, ordered') ∧
        Lists maximum (routes.eraseDups :: leases) ordered' := by
  obtain ⟨keys, rfl, hn, hmem, -⟩ := h
  have hzero : ∀ route ∉ keys, holders leases route = 0 := fun route hr =>
    Nat.eq_zero_of_not_pos fun hpos => hr ((hmem route).mpr hpos)
  have hholders : holders (routes.eraseDups :: leases) =
      fun route => holders leases route + if route ∈ routes.eraseDups then 1 else 0 := by
    funext route
    simp [holders, List.countP_cons]
  refine (acquire_table hn hzero (fun _ => List.countP_le_length.trans_lt hword) routes
    maximum).imp_right fun ⟨hacquire, hlength⟩ =>
      ⟨_, hacquire, _, congrArg _ hholders.symm, ?_, fun route => ?_, hlength⟩
  · refine List.nodup_append'.mpr ⟨hn, (nodup_eraseDups routes).filter _, fun route hk hnew => ?_⟩
    simpa [hk] using List.of_mem_filter hnew
  · rw [List.mem_append, List.mem_filter, hholders, decide_eq_true_eq]
    by_cases hr : route ∈ routes.eraseDups
    · simp [hr, em]
    · simp [hr, hmem]

theorem Lists.release (h : Lists maximum leases ordered) (held : lease ∈ leases)
    (hl : lease.Nodup) : Lists maximum (leases.erase lease) (release ordered lease) := by
  obtain ⟨keys, rfl, hn, hmem, hlength⟩ := h
  have hholders : holders (leases.erase lease) =
      fun route => holders leases route - if route ∈ lease then 1 else 0 := by
    funext route
    simp [holders, List.countP_erase, held]
  refine ⟨_, (release_table hn hl).trans (congrArg _ hholders.symm), hn.filter _, fun route => ?_,
    (List.length_filter_le _ _).trans hlength⟩
  rw [List.mem_filter, hmem, decide_eq_true_eq, hholders]
  exact ⟨And.right, fun hpos => ⟨hpos.trans_le (Nat.sub_le _ _), hpos⟩⟩

end TransientRouteLeases

/-! ## Demands -/

structure DemandState (ρ : Type) where
  count : Nat := 0
  transientRoutes : List (ρ × Nat) := []

namespace DemandState

def acquire (d : DemandState ρ) (routes : List ρ) (maximum : Nat) :
    Except DaemonError (Nat × List ρ) × DemandState ρ :=
  match checkedNext d.count with
  | none => (.error (resourceError "peer demand reference count exhausted"), d)
  | some count =>
    match TransientRouteLeases.acquire d.transientRoutes routes maximum with
    | (.ok routes, transientRoutes) => (.ok (d.count, routes), ⟨count, transientRoutes⟩)
    | (.error e, transientRoutes) => (.error e, ⟨count - 1, transientRoutes⟩)

def release (d : DemandState ρ) (routes : List ρ) : DemandState ρ :=
  ⟨d.count - 1, TransientRouteLeases.release d.transientRoutes routes⟩

end DemandState

/-- The shared state, the leases that were granted and not released, and how many calls have moved
only one of the two: they are counted and have no lease. -/
structure Demands (ρ : Type) extends DemandState ρ where
  leases : List (List ρ) := []
  inFlight : Nat := 0

namespace Demands

inductive Step (maximum : Nat) : Demands ρ → Demands ρ → Prop where
  | enter {d : Demands ρ} {count : Nat} (next : checkedNext d.count = some count) :
      Step maximum d { d with count, inFlight := d.inFlight + 1 }
  | grant {d : Demands ρ} {routes lease : List ρ} {transientRoutes : List (ρ × Nat)}
      (call : 0 < d.inFlight) (granted : TransientRouteLeases.acquire d.transientRoutes routes maximum =
        (.ok lease, transientRoutes)) :
      Step maximum d
        { d with transientRoutes, leases := lease :: d.leases, inFlight := d.inFlight - 1 }
  | refuse {d : Demands ρ} {routes : List ρ} {e : DaemonError} {transientRoutes : List (ρ × Nat)}
      (refused : TransientRouteLeases.acquire d.transientRoutes routes maximum =
        (.error e, transientRoutes)) :
      Step maximum d { d with transientRoutes }
  | release {d : Demands ρ} {lease : List ρ} (held : lease ∈ d.leases) :
      Step maximum d
        { d with
          transientRoutes := TransientRouteLeases.release d.transientRoutes lease
          leases := d.leases.erase lease
          inFlight := d.inFlight + 1 }
  | leave {d : Demands ρ} (call : 0 < d.inFlight) :
      Step maximum d { d with count := d.count - 1, inFlight := d.inFlight - 1 }

structure Exact (maximum : Nat) (d : Demands ρ) : Prop where
  count : d.count = d.leases.length + d.inFlight
  word : d.count < 2 ^ 64
  routes : TransientRouteLeases.Lists maximum d.leases d.transientRoutes
  nodup : ∀ lease ∈ d.leases, lease.Nodup

variable {maximum : Nat} {d d' : Demands ρ}

theorem Exact.leases_lt (h : d.Exact maximum) : d.leases.length < 2 ^ 64 := by
  have := h.count
  have := h.word
  omega

theorem Exact.step (h : d.Exact maximum) (step : Step maximum d d') : d'.Exact maximum := by
  have hcount := h.count
  cases step with
  | @enter count next =>
    obtain ⟨hlt, rfl⟩ : d.count + 1 < 2 ^ 64 ∧ d.count + 1 = count := by
      simpa [checkedNext] using next
    exact { h with
      count := by rw [hcount, Nat.add_assoc]
      word := hlt }
  | @grant routes lease transientRoutes call granted =>
    rcases h.routes.acquire h.leases_lt routes with ⟨e, hacquire⟩ | ⟨ordered, hacquire, hlists⟩ <;>
      rw [hacquire] at granted
    · cases (Prod.mk.inj granted).1
    obtain ⟨hlease, rfl⟩ := Prod.mk.inj granted
    obtain rfl := Except.ok.inj hlease
    refine ⟨?_, h.word, hlists, ?_⟩
    · simp only [List.length_cons]
      omega
    · simpa using ⟨TransientRouteLeases.nodup_eraseDups routes, h.nodup⟩
  | @refuse routes e transientRoutes refused =>
    rcases h.routes.acquire h.leases_lt routes with ⟨e', hacquire⟩ | ⟨ordered, hacquire, -⟩ <;>
      rw [hacquire] at refused
    · obtain rfl := (Prod.mk.inj refused).2
      exact h
    · cases (Prod.mk.inj refused).1
  | @release lease held =>
    refine ⟨?_, h.word, h.routes.release held (h.nodup lease held),
      fun l hl => h.nodup l (List.mem_of_mem_erase hl)⟩
    have hpos := List.length_pos_of_mem held
    simp only [List.length_erase_of_mem held]
    omega
  | leave call =>
    have := h.word
    refine { h with
      count := ?_
      word := ?_ } <;> simp only <;> omega

theorem Exact.run (h : ReflTransGen (Step maximum) {} d) : d.Exact maximum :=
  Preserved.run (fun _ _ step he => he.step step) h ⟨rfl, Nat.two_pow_pos 64,
    ⟨[], rfl, List.nodup_nil, by simp [TransientRouteLeases.holders], Nat.zero_le _⟩, nofun⟩

theorem acquire_run {routes lease : List ρ} {previous : Nat} {s : DemandState ρ}
    (h : d.toDemandState.acquire routes maximum = (.ok (previous, lease), s)) :
    ReflTransGen (Step maximum) d ⟨s, lease :: d.leases, d.inFlight⟩ := by
  unfold DemandState.acquire at h
  split at h
  · cases h
  rename_i count hnext
  split at h
  · rename_i granted
    obtain ⟨hok, rfl⟩ := Prod.mk.inj h
    obtain ⟨-, rfl⟩ := Prod.mk.inj (Except.ok.inj hok)
    exact .tail (.single (.enter hnext)) (.grant (Nat.succ_pos _) granted)
  · cases h

theorem release_run {lease : List ρ} (held : lease ∈ d.leases) :
    ReflTransGen (Step maximum) d
      ⟨d.toDemandState.release lease, d.leases.erase lease, d.inFlight⟩ :=
  .tail (.single (.release held)) (.leave (Nat.succ_pos _))

/-- In every interleaving of acquisitions and releases, the demands are counted, the table holds
the routes of the leases, each with the number of leases that hold it, and a refused acquisition
changes nothing. -/
theorem demand_leases_exact (maximum : Nat) (d : Demands ρ)
    (h : ReflTransGen (Step maximum) {} d) :
    d.count = d.leases.length + d.inFlight ∧
    (TransientRouteLeases.snapshot d.transientRoutes).Nodup ∧
    (∀ route, route ∈ TransientRouteLeases.snapshot d.transientRoutes ↔
      ∃ lease ∈ d.leases, route ∈ lease) ∧
    (∀ p ∈ d.transientRoutes, p.2 = TransientRouteLeases.holders d.leases p.1) ∧
    d.transientRoutes.length ≤ maximum ∧
    (∀ routes,
      (∀ e t, TransientRouteLeases.acquire d.transientRoutes routes maximum = (.error e, t) →
        t = d.transientRoutes) ∧
      (∀ e s, d.toDemandState.acquire routes maximum = (.error e, s) → s = d.toDemandState) ∧
      ∀ previous lease s, d.toDemandState.acquire routes maximum = (.ok (previous, lease), s) →
        (∀ route, route ∈ lease ↔ route ∈ routes) ∧
        ReflTransGen (Step maximum) {} ⟨s, lease :: d.leases, d.inFlight⟩) ∧
    ∀ lease ∈ d.leases, ReflTransGen (Step maximum) {}
      ⟨d.toDemandState.release lease, d.leases.erase lease, d.inFlight⟩ := by
  have he := Exact.run h
  obtain ⟨keys, htable, hn, hmem, hlength⟩ := he.routes
  refine ⟨he.count, by simpa [htable] using hn, fun route => ?_, fun p hp => ?_,
    by simpa [htable] using hlength, fun routes => ?_, fun lease hl => h.trans (release_run hl)⟩
  · rw [htable, TransientRouteLeases.snapshot_table, hmem,
      TransientRouteLeases.holders, List.countP_pos_iff]
    simp
  · rw [htable] at hp
    obtain ⟨route, -, rfl⟩ := List.mem_map.mp hp
    rfl
  · have hout := he.routes.acquire he.leases_lt routes
    refine ⟨fun e t ht => ?_, fun e s hs => ?_, fun previous lease s hs => ⟨?_,
      h.trans (acquire_run hs)⟩⟩
    · rcases hout with ⟨e', hacquire⟩ | ⟨_, hacquire, -⟩ <;> rw [hacquire] at ht
      · exact (Prod.mk.inj ht).2.symm
      · cases (Prod.mk.inj ht).1
    · unfold DemandState.acquire at hs
      split at hs
      · exact (Prod.mk.inj hs).2.symm
      rename_i count hnext
      obtain rfl := checkedNext_some hnext
      rcases hout with ⟨e', hacquire⟩ | ⟨_, hacquire, -⟩ <;> rw [hacquire] at hs
      · exact (Prod.mk.inj hs).2.symm
      · cases (Prod.mk.inj hs).1
    · unfold DemandState.acquire at hs
      split at hs
      · cases hs
      rcases hout with ⟨e', hacquire⟩ | ⟨_, hacquire, -⟩ <;> rw [hacquire] at hs
      · cases (Prod.mk.inj hs).1
      · obtain ⟨-, rfl⟩ := Prod.mk.inj (Except.ok.inj (Prod.mk.inj hs).1)
        simp

/-- Two demands share a route, which stays when the first is over. -/
theorem demand_leases_exact_shared :
    ∃ d : Demands Nat, d.transientRoutes = [(2, 1), (3, 1)] ∧ d.count = 1 ∧
      (∀ p ∈ d.transientRoutes, p.2 = TransientRouteLeases.holders d.leases p.1) := by
  have hfirst := (demand_leases_exact 3 ({} : Demands Nat) .refl).2.2.2.2.2.1 [1, 2, 1]
    |>.2.2 0 [1, 2] _ rfl |>.2
  have hboth := (demand_leases_exact 3 _ hfirst).2.2.2.2.2.1 [2, 3] |>.2.2 1 [2, 3] _ rfl |>.2
  have hleft := (demand_leases_exact 3 _ hboth).2.2.2.2.2.2 [1, 2] (by decide)
  exact ⟨_, by decide, by decide, (demand_leases_exact 3 _ hleft).2.2.2.1⟩

end Demands

end Voytty.Daemon
