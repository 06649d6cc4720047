import Mathlib.Data.List.Nodup

/-!
# Growing dictionaries

A writer keeps the values it has met in a list and stores their places in it.
`Writes` says that a reader gets back what was written, under every dictionary that
has grown from the writer's. It holds of one stored place (`Writes.place`), passes
to what contains it (`Writes.wrap`) and from the elements of a list to the list
(`Writes.all`).
-/

namespace Voytty.Lib

variable {κ α β γ δ ε : Type}

/-- The dictionary after a value is used. -/
def learn [DecidableEq κ] (d : List κ) (k : κ) : List κ := if k ∈ d then d else d ++ [k]

/-- The place of an optional value, counted from one and at most `room`; no value is zero. -/
def writePlace [DecidableEq κ] (room : Nat) (d : List κ) : Option κ → Nat × List κ
  | none => (0, d)
  | some k => (min (d.idxOf k + 1) room, learn d k)

def readPlace (missing : ε) (d : List κ) (place : Nat) : Except ε (Option κ) :=
  if place = 0 then .ok none else
  match d[place - 1]? with
  | some k => .ok (some k)
  | none => .error missing

/-- Writes the elements in turn, with one dictionary for all. -/
def writeAll (write : List κ → α → β × List κ) : List κ → List α → List β × List κ
  | d, [] => ([], d)
  | d, a :: as =>
    let first := write d a
    let rest := writeAll write first.2 as
    (first.1 :: rest.1, rest.2)

/-- `read` gets `a` back from what `write` stored, under any dictionary below `room` that extends
the one written; a value enters the dictionary once, and only if it has `P`. -/
structure Writes (room : Nat) (P : κ → Prop) (write : List κ → α → β × List κ)
    (read : List κ → β → Except ε α) (a : α) : Prop where
  grows : ∀ d, d <+: (write d a).2
  once : ∀ d, d.Nodup → (write d a).2.Nodup
  known : ∀ d, (∀ k ∈ d, P k) → ∀ k ∈ (write d a).2, P k
  reads : ∀ d all, (write d a).2 <+: all → all.length < room → read all (write d a).1 = .ok a

variable {room : Nat} {P : κ → Prop} {write : List κ → α → β × List κ}
  {read : List κ → β → Except ε α}

theorem Writes.place [DecidableEq κ] (missing : ε) {value : Option κ} (h : ∀ k ∈ value, P k) :
    Writes room P (writePlace room) (readPlace missing) value := by
  cases value with
  | none => exact ⟨fun d => List.prefix_rfl, fun d hd => hd, fun d hd => hd, fun _ _ _ _ => rfl⟩
  | some k =>
    have hmem : ∀ d, k ∈ learn d k := fun d => by unfold learn; split <;> simp [*]
    have hidx : ∀ d, (learn d k).idxOf k = d.idxOf k := fun d => by
      unfold learn
      split
      · rfl
      · rename_i hk
        rw [List.idxOf_append_of_notMem hk, List.idxOf_eq_length_iff.mpr hk, List.idxOf_cons_self,
          Nat.add_zero]
    refine ⟨fun d => ?_, fun d hd => ?_, fun d hd k' hk' => ?_, ?_⟩
    · simp only [writePlace, learn]
      split
      · exact List.prefix_rfl
      · exact List.prefix_append ..
    · simp only [writePlace, learn]
      split
      · exact hd
      · rename_i hk
        rw [← List.concat_eq_append]
        exact hd.concat hk
    · simp only [writePlace, learn] at hk'
      split at hk'
      · exact hd k' hk'
      · rcases List.mem_append.mp hk' with hk' | hk'
        · exact hd k' hk'
        · exact h k' (by rw [List.mem_singleton.mp hk']; rfl)
    · rintro d _ ⟨more, rfl⟩ hroom
      have hplace : d.idxOf k < (learn d k).length := hidx d ▸ List.idxOf_lt_length_iff.mpr (hmem d)
      have hfits : min (d.idxOf k + 1) room = d.idxOf k + 1 := by
        simp only [writePlace, List.length_append] at hroom
        omega
      have hget : (learn d k ++ more)[d.idxOf k]? = some k := by
        rw [List.getElem?_append_left hplace, ← hidx d, List.getElem?_idxOf (hmem d)]
      simp [readPlace, writePlace, hfits, hget]

/-- What holds a written part, stored with the rest of it, is read back when the part is. -/
theorem Writes.wrap (part : γ → α) (pack : γ → β → δ) {c : γ}
    (h : Writes room P write read (part c)) {readWhole : List κ → δ → Except ε γ}
    (hread : ∀ all b, read all b = .ok (part c) → readWhole all (pack c b) = .ok c) :
    Writes room P (fun d c => (pack c (write d (part c)).1, (write d (part c)).2)) readWhole c :=
  ⟨h.grows, h.once, h.known, fun d all hall hroom => hread all _ (h.reads d all hall hroom)⟩

theorem Writes.all {as : List α} (h : ∀ a ∈ as, Writes room P write read a) :
    Writes room P (writeAll write) (fun all bs => bs.mapM (read all)) as := by
  induction as with
  | nil => exact ⟨fun d => List.prefix_rfl, fun d hd => hd, fun d hd => hd, fun _ _ _ _ => rfl⟩
  | cons a as ih =>
    have ha := h a List.mem_cons_self
    have has := ih fun a ha => h a (List.mem_cons_of_mem _ ha)
    refine ⟨fun d => (ha.grows d).trans (has.grows _), fun d hd => has.once _ (ha.once d hd),
      fun d hd => has.known _ (ha.known d hd), fun d all hall hroom => ?_⟩
    simp only [writeAll] at hall ⊢
    have hfirst : read all (write d a).1 = .ok a := ha.reads d all ((has.grows _).trans hall) hroom
    rw [List.mapM_cons, hfirst, has.reads _ all hall hroom]
    rfl

theorem readPlace_mem {missing : ε} {d : List κ} {place : Nat} {value : Option κ}
    (h : readPlace missing d place = .ok value) : ∀ k ∈ value, k ∈ d := by
  unfold readPlace at h
  split at h
  · cases h; simp
  split at h
  · rename_i k hk
    cases h
    simpa using List.mem_of_getElem? hk
  · cases h

theorem mem_of_mapM_ok {f : β → Except ε α} {bs : List β} {as : List α} (h : bs.mapM f = .ok as)
    {a : α} (ha : a ∈ as) : ∃ b ∈ bs, f b = .ok a := by
  induction bs generalizing as with
  | nil => cases h; cases ha
  | cons b bs ih =>
    rw [List.mapM_cons] at h
    cases hb : f b with
    | error e => simp [hb, bind, Except.bind] at h
    | ok first =>
      cases hbs : bs.mapM f with
      | error e => simp [hb, hbs, bind, Except.bind] at h
      | ok rest =>
        simp only [hb, hbs, bind, Except.bind, pure, Except.pure, Except.ok.injEq] at h
        subst h
        rcases List.mem_cons.mp ha with rfl | ha
        · exact ⟨b, List.mem_cons_self, hb⟩
        · obtain ⟨b', hb', he⟩ := ih hbs ha
          exact ⟨b', List.mem_cons_of_mem _ hb', he⟩

end Voytty.Lib
