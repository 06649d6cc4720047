import Voytty.Core.DeviceAlias

/-!
# Alias reservations

The device directory (`daemon/src/device_directory.rs`) hands out display
aliases while pairings and renames go on at the same time. A request looks an
alias up in the address book, then takes it under the lock of the reservation
map, and holds a guard until it is dropped; in between it may write the alias to
the address book. Each of these is one step, so that any interleaving of them is
a run (`Directory.run`).

A request that gives up at its deadline drops its guard while the write it sent
is still under way (`writing _ false`).
-/

namespace Voytty.Pairing

open Voytty.Lib

/-! ## The address book -/

/-- The outbound devices; the store's keys keep devices and aliases unique. -/
structure AddressBook where
  rows : List (DeviceId × DeviceAlias) := []
  devices : (rows.map (·.1)).Nodup := by simp
  aliases : (rows.map (·.2)).Nodup := by simp

namespace AddressBook

variable {book : AddressBook} {deviceId : DeviceId} {name : DeviceAlias}

def aliasOwner (book : AddressBook) (name : DeviceAlias) : Option DeviceId :=
  (book.rows.find? (·.2 = name)).map (·.1)

theorem aliasOwner_eq_some :
    book.aliasOwner name = some deviceId ↔ (deviceId, name) ∈ book.rows := by
  unfold aliasOwner
  constructor
  · intro h
    obtain ⟨row, hrow, rfl⟩ := Option.map_eq_some_iff.1 h
    have hname : row.2 = name := by simpa using List.find?_some hrow
    rw [← hname]
    exact List.mem_of_find?_eq_some hrow
  · intro h
    cases hfind : book.rows.find? (·.2 = name) with
    | none => simpa using List.find?_eq_none.1 hfind _ h
    | some row =>
      have hname : row.2 = name := by simpa using List.find?_some hfind
      have hsame : row = (deviceId, name) := List.inj_on_of_nodup_map book.aliases
        (List.mem_of_find?_eq_some hfind) h hname
      rw [hsame]
      rfl

def claimed (book : AddressBook) (deviceId : DeviceId) (name : DeviceAlias) : Bool :=
  (book.aliasOwner name).any (· ≠ deviceId)

theorem claimed_eq_false : book.claimed deviceId name = false ↔
    ∀ owner, book.aliasOwner name = some owner → owner = deviceId := by
  unfold claimed
  cases book.aliasOwner name <;> simp

def put (book : AddressBook) (deviceId : DeviceId) (name : DeviceAlias)
    (hfree : book.claimed deviceId name = false) : AddressBook where
  rows := (deviceId, name) :: book.rows.filter (·.1 ≠ deviceId)
  devices := by
    refine List.nodup_cons.2 ⟨?_, book.devices.sublist (List.filter_sublist.map _)⟩
    intro hmem
    obtain ⟨row, hrow, hsame⟩ := List.mem_map.1 hmem
    exact absurd hsame (by simpa using (List.mem_filter.1 hrow).2)
  aliases := by
    refine List.nodup_cons.2 ⟨?_, book.aliases.sublist (List.filter_sublist.map _)⟩
    intro hmem
    obtain ⟨row, hrow, hsame⟩ := List.mem_map.1 hmem
    obtain ⟨hin, hother⟩ := List.mem_filter.1 hrow
    have howner : book.aliasOwner name = some row.1 := by
      rw [aliasOwner_eq_some, ← show row.2 = name from hsame]
      exact hin
    exact absurd (claimed_eq_false.1 hfree row.1 howner) (by simpa using hother)

theorem put_owner (hfree : book.claimed deviceId name = false) {name' : DeviceAlias}
    {owner : DeviceId} (h : (book.put deviceId name hfree).aliasOwner name' = some owner) :
    name' = name ∧ owner = deviceId ∨ name' ≠ name ∧ book.aliasOwner name' = some owner := by
  have hrow := aliasOwner_eq_some.1 h
  rcases List.mem_cons.1 hrow with heq | hmem
  · exact .inl ⟨congrArg Prod.snd heq, congrArg Prod.fst heq⟩
  · refine .inr ⟨?_, aliasOwner_eq_some.2 (List.mem_filter.1 hmem).1⟩
    rintro rfl
    have howner := claimed_eq_false.1 hfree owner (aliasOwner_eq_some.2 (List.mem_filter.1 hmem).1)
    exact absurd howner (by simpa using (List.mem_filter.1 hmem).2)

def confirmKnownDevice (book : AddressBook) (deviceId : DeviceId) (name : DeviceAlias) :
    Except DaemonError AddressBook :=
  if h : book.claimed deviceId name = false then .ok (book.put deviceId name h)
  else .error ⟨.deviceAliasConflict, "device alias is already claimed"⟩

def renameAlias (book : AddressBook) (deviceId : DeviceId) (name : DeviceAlias) :
    Except DaemonError AddressBook :=
  if book.rows.all (·.1 ≠ deviceId) then
    .error ⟨.deviceNotFound, "no outbound known-device record for endpoint"⟩
  else if h : book.claimed deviceId name = false then .ok (book.put deviceId name h)
  else .error ⟨.deviceAliasConflict, "device alias is already claimed"⟩

def write (book : AddressBook) (renames : Bool) (deviceId : DeviceId) (name : DeviceAlias) :
    AddressBook :=
  match if renames then book.renameAlias deviceId name
    else book.confirmKnownDevice deviceId name with
  | .ok book => book
  | .error _ => book

theorem write_cases (book : AddressBook) (deviceId : DeviceId) (name : DeviceAlias)
    (renames : Bool) : book.write renames deviceId name = book ∨
    ∃ hfree, book.write renames deviceId name = book.put deviceId name hfree := by
  unfold write
  split
  · rename_i book' hok
    cases renames with
    | false =>
      rw [if_neg (by decide), confirmKnownDevice] at hok
      split at hok
      · rename_i hfree
        exact .inr ⟨hfree, (Except.ok.inj hok).symm⟩
      · cases hok
    | true =>
      rw [if_pos rfl, renameAlias] at hok
      split at hok
      · cases hok
      split at hok
      · rename_i hfree
        exact .inr ⟨hfree, (Except.ok.inj hok).symm⟩
      · cases hok
  · exact .inl rfl

end AddressBook

/-! ## Reservations -/

structure ReservationEntry where
  deviceId : DeviceId
  count : Nat
  deriving DecidableEq

abbrev ReservationState := DeviceAlias → Option ReservationEntry

def quoted (name : DeviceAlias) : String := (String.ofList name.value).quote

/-- The part of `reserve_alias` under the lock. -/
def ReservationState.reserve (state : ReservationState) (deviceId : DeviceId) (name : DeviceAlias) :
    Except DaemonError ReservationState :=
  match state name with
  | some entry =>
    if entry.deviceId ≠ deviceId then
      .error ⟨.deviceAliasConflict, "alias " ++ quoted name ++ " is already reserved"⟩
    else if entry.count + 1 < 2 ^ 64 then
      .ok (Function.update state name (some { entry with count := entry.count + 1 }))
    else .error ⟨.resourceExhausted, "alias reservation reference count exhausted"⟩
  | none => .ok (Function.update state name (some ⟨deviceId, 1⟩))

def ReservationState.release (state : ReservationState) (deviceId : DeviceId) (name : DeviceAlias) :
    ReservationState :=
  match state name with
  | some entry =>
    if entry.deviceId = deviceId then
      if entry.count - 1 = 0 then Function.update state name none
      else Function.update state name (some { entry with count := entry.count - 1 })
    else state
  | none => state

/-! ## Requests -/

/-- Where a request stands. The names still to be tried are those left if this one is taken. -/
inductive Stage where
  | looking (name : DeviceAlias) (rest : List DeviceAlias)
  | locking (name : DeviceAlias) (rest : List DeviceAlias)
  | held (name : DeviceAlias) (written : Bool)
  | writing (name : DeviceAlias) (guarded : Bool)
  | ended (error : Option DaemonError)
  deriving DecidableEq

def Stage.guard : Stage → Option DeviceAlias
  | .held name _ | .writing name true => some name
  | _ => none

structure AliasRequest where
  deviceId : DeviceId
  renames : Bool
  stage : Stage
  deriving DecidableEq

theorem reserve_ok {state state' : ReservationState} {deviceId : DeviceId} {name : DeviceAlias}
    (h : state.reserve deviceId name = .ok state') :
    state' = Function.update state name
        (some ⟨deviceId, (state name).elim 0 (·.count) + 1⟩) ∧
      ∀ entry, state name = some entry → entry.deviceId = deviceId := by
  unfold ReservationState.reserve at h
  split at h
  · rename_i entry hentry
    split at h
    · cases h
    rename_i hdevice
    split at h
    · cases h
      rw [hentry]
      refine ⟨?_, fun entry' hentry' => ?_⟩
      · rw [← not_not.1 hdevice]
        rfl
      · rw [← Option.some.inj hentry']
        exact not_not.1 hdevice
    · cases h
  · rename_i hnone
    cases h
    rw [hnone]
    exact ⟨rfl, nofun⟩

theorem release_one {state : ReservationState} {deviceId : DeviceId} {name : DeviceAlias}
    {entry : ReservationEntry} (hentry : state name = some entry)
    (hdevice : entry.deviceId = deviceId) (hpos : 0 < entry.count) :
    ∃ left, state.release deviceId name = Function.update state name left ∧
      left.elim 0 (·.count) + 1 = entry.count ∧
      ∀ entry', left = some entry' → 0 < entry'.count ∧ entry'.deviceId = deviceId := by
  unfold ReservationState.release
  rw [hentry]
  dsimp only
  rw [if_pos hdevice]
  split
  · exact ⟨none, rfl, by simp; omega, nofun⟩
  · refine ⟨_, rfl, by simp; omega, fun entry' hentry' => ?_⟩
    cases hentry'
    exact ⟨by simp; omega, hdevice⟩

def AliasRequest.guards (request : AliasRequest) (name : DeviceAlias) : Bool :=
  request.stage.guard = some name

/-- Names in the order `reserve_selected_alias` tries them. -/
def candidates (deviceId : DeviceId) (remoteName : DeviceDisplayName)
    (explicit : Option DeviceAlias) : List DeviceAlias :=
  match explicit with
  | some name => [name]
  | none => (DeviceAlias.fromRemoteName remoteName.value.toList).toList ++
      [DeviceAlias.disambiguated remoteName.value.toList deviceId]

def Stage.refuse (rest : List DeviceAlias) (error : DaemonError) : Stage :=
  match rest with
  | next :: rest => if error.kind = .deviceAliasConflict then .looking next rest
    else .ended (some error)
  | [] => .ended (some error)

def Stage.start : List DeviceAlias → Stage
  | name :: rest => .looking name rest
  | [] => .ended none

structure Directory where
  book : AddressBook := {}
  reservations : ReservationState := fun _ => none
  requests : List AliasRequest := []

inductive AliasAction where
  | look (failure : Option DaemonError)
  | lock
  | write
  | commit
  | lose
  | giveUp
  | drop

inductive AliasEvent where
  | pair (deviceId : DeviceId) (remoteName : DeviceDisplayName) (explicit : Option DeviceAlias)
  | rename (deviceId : DeviceId) (name : DeviceAlias)
  | act (i : Nat) (action : AliasAction)

namespace Directory

variable (s : Directory)

def setStage (i : Nat) (stage : Stage) : Directory :=
  { s with requests := s.requests.modify i fun request => { request with stage } }

/-- `reserve_alias` before the lock. -/
def look (i : Nat) (deviceId : DeviceId) (name : DeviceAlias) (rest : List DeviceAlias)
    (failure : Option DaemonError) : Directory :=
  match failure with
  | some error => s.setStage i (Stage.refuse rest error)
  | none =>
    if s.book.claimed deviceId name then
      s.setStage i (Stage.refuse rest ⟨.deviceAliasConflict,
        "alias " ++ quoted name ++ " is already claimed by another device"⟩)
    else s.setStage i (.locking name rest)

def lock (i : Nat) (deviceId : DeviceId) (name : DeviceAlias) (rest : List DeviceAlias) :
    Directory :=
  match s.reservations.reserve deviceId name with
  | .ok reservations => { s.setStage i (.held name false) with reservations }
  | .error error => s.setStage i (Stage.refuse rest error)

/-- A write is over: the guard, if it is still held, is left to be dropped. -/
def afterWrite (name : DeviceAlias) (guarded : Bool) : Stage :=
  if guarded then .held name true else .ended none

def commit (i : Nat) (request : AliasRequest) (name : DeviceAlias) (guarded : Bool) : Directory :=
  { s.setStage i (afterWrite name guarded) with
    book := s.book.write request.renames request.deviceId name }

def release (i : Nat) (deviceId : DeviceId) (name : DeviceAlias) (stage : Stage) : Directory :=
  { s.setStage i stage with reservations := s.reservations.release deviceId name }

/-- One request's next step, if it is at the point for it. -/
def advance (i : Nat) (request : AliasRequest) (action : AliasAction) : Directory :=
  match action, request.stage with
  | .look failure, .looking name rest => s.look i request.deviceId name rest failure
  | .lock, .locking name rest => s.lock i request.deviceId name rest
  | .write, .held name false => s.setStage i (.writing name true)
  | .commit, .writing name guarded => s.commit i request name guarded
  | .lose, .writing name guarded => s.setStage i (afterWrite name guarded)
  | .giveUp, .writing name true => s.release i request.deviceId name (.writing name false)
  | .drop, .held name _ => s.release i request.deviceId name (.ended none)
  | _, _ => s

def begin (deviceId : DeviceId) (renames : Bool) (names : List DeviceAlias) : Directory :=
  { s with requests := s.requests ++ [⟨deviceId, renames, Stage.start names⟩] }

def step : AliasEvent → Directory
  | .pair deviceId remoteName explicit =>
    s.begin deviceId false (candidates deviceId remoteName explicit)
  | .rename deviceId name => s.begin deviceId true [name]
  | .act i action =>
    match s.requests[i]? with
    | some request => s.advance i request action
    | none => s

def run (events : List AliasEvent) : Directory := events.foldl step s

/-- Who has a name: the device it is stored for, and the devices with a guard for it. -/
def Holds (name : DeviceAlias) (deviceId : DeviceId) : Prop :=
  s.book.aliasOwner name = some deviceId ∨
    ∃ request ∈ s.requests, request.deviceId = deviceId ∧ request.guards name = true

end Directory

/-! ## Counts and guards -/

/-- Entries count the guards, which are all of the entry's device. -/
structure Counted (s : Directory) : Prop where
  count : ∀ name, (s.reservations name).elim 0 (·.count) =
    s.requests.countP (·.guards name)
  positive : ∀ name entry, s.reservations name = some entry → 0 < entry.count
  owner : ∀ name entry, s.reservations name = some entry → ∀ request ∈ s.requests,
    request.guards name = true → request.deviceId = entry.deviceId

theorem countP_modify {α : Type} {l : List α} {i : Nat} {a : α} (h : l[i]? = some a) (f : α → α)
    (p : α → Bool) : (l.modify i f).countP p + (if p a then 1 else 0) =
      l.countP p + if p (f a) then 1 else 0 := by
  induction l generalizing i with
  | nil => cases h
  | cons b l ih =>
    cases i with
    | zero =>
      cases h
      rw [List.modify_zero_cons, List.countP_cons, List.countP_cons]
      omega
    | succ i =>
      rw [List.modify_succ_cons, List.countP_cons, List.countP_cons]
      have := ih h
      omega

theorem mem_modify {α : Type} {l : List α} {i : Nat} {a b : α} (h : l[i]? = some a) {f : α → α}
    (hb : b ∈ l.modify i f) : b = f a ∨ b ∈ l := by
  induction l generalizing i with
  | nil => cases h
  | cons c l ih =>
    cases i with
    | zero =>
      cases h
      rw [List.modify_zero_cons] at hb
      rcases List.mem_cons.1 hb with rfl | hb
      · exact .inl rfl
      · exact .inr (List.mem_cons_of_mem _ hb)
    | succ i =>
      rw [List.modify_succ_cons] at hb
      rcases List.mem_cons.1 hb with rfl | hb
      · exact .inr List.mem_cons_self
      · exact (ih h hb).imp_right (List.mem_cons_of_mem _)

namespace Counted

variable {s : Directory} {i : Nat} {request : AliasRequest}

variable {name : DeviceAlias} {stage : Stage}

theorem guards_iff {request : AliasRequest} :
    request.guards name = true ↔ request.stage.guard = some name := decide_eq_true_iff

theorem entry (h : Counted s) {request : AliasRequest} (hmem : request ∈ s.requests)
    (hguards : request.guards name = true) :
    ∃ entry, s.reservations name = some entry ∧ entry.deviceId = request.deviceId := by
  cases hentry : s.reservations name with
  | none =>
    have hcount := h.count name
    rw [hentry] at hcount
    exact absurd hcount (List.countP_pos_iff.2 ⟨request, hmem, hguards⟩).ne
  | some entry => exact ⟨entry, rfl, (h.owner name entry hentry request hmem hguards).symm⟩

theorem move (h : Counted s) (hi : s.requests[i]? = some request) (stage : Stage)
    {reservations : ReservationState}
    (hcount : ∀ name, (reservations name).elim 0 (·.count) +
        (if request.stage.guard = some name then 1 else 0) =
      (s.reservations name).elim 0 (·.count) + if stage.guard = some name then 1 else 0)
    (hpositive : ∀ name entry, reservations name = some entry → 0 < entry.count)
    (howner : ∀ name entry, reservations name = some entry →
      (stage.guard = some name → request.deviceId = entry.deviceId) ∧
        ∀ entry', s.reservations name = some entry' → entry'.deviceId = entry.deviceId) :
    Counted { s.setStage i stage with reservations } where
  count := by
    intro name
    have hmodify := countP_modify hi (fun request => { request with stage })
      (·.guards name)
    simp only [guards_iff, ← h.count name] at hmodify
    have hname := hcount name
    change (reservations name).elim 0 (·.count) = (s.requests.modify i _).countP _
    omega
  positive := hpositive
  owner := by
    intro name entry hentry other hother hguards
    obtain ⟨hself, hothers⟩ := howner name entry hentry
    rcases mem_modify hi hother with rfl | hold
    · exact hself (guards_iff.1 hguards)
    · obtain ⟨entry', hentry', hsame⟩ := h.entry hold hguards
      rw [← hsame, hothers entry' hentry']

theorem setStage (h : Counted s) (hi : s.requests[i]? = some request)
    (hguard : stage.guard = request.stage.guard) : Counted (s.setStage i stage) := by
  refine h.move hi stage (fun name => by rw [hguard]) h.positive fun name entry hentry => ⟨?_, ?_⟩
  · intro hname
    refine h.owner name entry hentry request (List.mem_of_getElem? hi) ?_
    rw [guards_iff, ← hguard, hname]
  · intro entry' hentry'
    rw [Option.some.inj (hentry.symm.trans hentry')]

theorem reserve (h : Counted s) (hi : s.requests[i]? = some request)
    (hnone : request.stage.guard = none) (hguard : stage.guard = some name)
    {reservations : ReservationState}
    (hreserve : s.reservations.reserve request.deviceId name = .ok reservations) :
    Counted { s.setStage i stage with reservations } := by
  obtain ⟨rfl, hsame⟩ := reserve_ok hreserve
  refine h.move hi stage (fun other => ?_) (fun other entry hentry => ?_)
    fun other entry hentry => ?_
  · rw [hnone, hguard]
    by_cases hother : other = name
    · subst hother
      simp
    · simp [hother, Ne.symm hother]
  · by_cases hother : other = name
    · rw [hother, Function.update_self] at hentry
      cases hentry
      exact Nat.succ_pos _
    · rw [Function.update_of_ne hother] at hentry
      exact h.positive other entry hentry
  · by_cases hother : other = name
    · rw [hother, Function.update_self] at hentry
      cases hentry
      rw [hother]
      exact ⟨fun _ => rfl, hsame⟩
    · rw [Function.update_of_ne hother] at hentry
      refine ⟨fun hname => ?_, fun entry' hentry' => ?_⟩
      · rw [hguard] at hname
        exact absurd (Option.some.inj hname).symm hother
      · rw [Option.some.inj (hentry.symm.trans hentry')]

theorem release (h : Counted s) (hi : s.requests[i]? = some request)
    (hguard : request.stage.guard = some name) (hnone : stage.guard = none) :
    Counted (s.release i request.deviceId name stage) := by
  obtain ⟨entry, hentry, hdevice⟩ := h.entry (List.mem_of_getElem? hi) (guards_iff.2 hguard)
  obtain ⟨left, hleft, hcount, hkept⟩ := release_one hentry hdevice (h.positive name entry hentry)
  rw [Directory.release, hleft]
  refine h.move hi stage (fun other => ?_) (fun other entry' hentry' => ?_)
    fun other entry' hentry' => ?_
  · rw [hnone, hguard]
    by_cases hother : other = name
    · subst hother
      simpa [hentry] using hcount
    · simp [hother, Ne.symm hother]
  · by_cases hother : other = name
    · rw [hother, Function.update_self] at hentry'
      exact (hkept entry' hentry').1
    · rw [Function.update_of_ne hother] at hentry'
      exact h.positive other entry' hentry'
  · refine ⟨fun hname => absurd (hnone.symm.trans hname) nofun, fun entry'' hentry'' => ?_⟩
    by_cases hother : other = name
    · rw [hother, Function.update_self] at hentry'
      rw [hother, hentry] at hentry''
      cases hentry''
      rw [(hkept entry' hentry').2, hdevice]
    · rw [Function.update_of_ne hother] at hentry'
      rw [Option.some.inj (hentry'.symm.trans hentry'')]

theorem refuse_guard (rest : List DeviceAlias) (error : DaemonError) :
    (Stage.refuse rest error).guard = none := by
  unfold Stage.refuse
  split
  · split <;> rfl
  · rfl

theorem start_guard (names : List DeviceAlias) : (Stage.start names).guard = none := by
  cases names <;> rfl

theorem begin (h : Counted s) (deviceId : DeviceId) (renames : Bool) (names : List DeviceAlias) :
    Counted (s.begin deviceId renames names) where
  count := by
    intro name
    rw [Directory.begin, List.countP_append, List.countP_singleton, if_neg]
    · exact h.count name
    · rw [guards_iff, start_guard]
      nofun
  positive := h.positive
  owner := by
    intro name entry hentry request hmem hguards
    rcases List.mem_append.1 hmem with hold | hnew
    · exact h.owner name entry hentry request hold hguards
    · rw [List.mem_singleton.1 hnew, guards_iff, start_guard] at hguards
      cases hguards

theorem advance (h : Counted s) (hi : s.requests[i]? = some request) (action : AliasAction) :
    Counted (s.advance i request action) := by
  unfold Directory.advance
  split
  · rename_i name rest hstage
    have hguard : request.stage.guard = none := by rw [hstage]; rfl
    unfold Directory.look
    split
    · exact h.setStage hi (by rw [refuse_guard, hguard])
    split
    · exact h.setStage hi (by rw [refuse_guard, hguard])
    · exact h.setStage hi (by rw [hguard]; rfl)
  · rename_i name rest hstage
    have hguard : request.stage.guard = none := by rw [hstage]; rfl
    unfold Directory.lock
    split
    · rename_i reservations hreserve
      exact h.reserve hi hguard rfl hreserve
    · exact h.setStage hi (by rw [refuse_guard, hguard])
  · rename_i name hstage
    exact h.setStage hi (by rw [hstage]; rfl)
  · rename_i name guarded hstage
    have hwritten : Counted (s.setStage i (Directory.afterWrite name guarded)) :=
      h.setStage hi (by rw [hstage]; cases guarded <;> rfl)
    exact ⟨hwritten.count, hwritten.positive, hwritten.owner⟩
  · rename_i name guarded hstage
    exact h.setStage hi (by rw [hstage]; cases guarded <;> rfl)
  · rename_i name hstage
    exact h.release hi (by rw [hstage]; rfl) rfl
  · rename_i name written hstage
    exact h.release hi (by rw [hstage]; rfl) rfl
  · exact h

theorem step (h : Counted s) (event : AliasEvent) : Counted (s.step event) := by
  cases event with
  | pair deviceId remoteName explicit => exact h.begin _ _ _
  | rename deviceId name => exact h.begin _ _ _
  | act i action =>
    unfold Directory.step
    dsimp only
    split
    · rename_i request hi
      exact h.advance hi action
    · exact h

theorem run (h : Counted s) (events : List AliasEvent) : Counted (s.run events) := by
  induction events generalizing s with
  | nil => exact h
  | cons event events ih => exact ih (h.step event)

end Counted

/-! ## Names in the address book -/

def Stage.locks (name : DeviceAlias) : Stage → Bool
  | .locking name' _ => name' = name
  | _ => false

/-- A name is stored while its guard is held and no other device's request for it stands between
its look-up and its lock. -/
def Directory.orderly (s : Directory) : AliasEvent → Bool
  | .act i .commit =>
    match s.requests[i]? with
    | some request =>
      match request.stage with
      | .writing name guarded => guarded && s.requests.all fun other =>
          !other.stage.locks name || other.deviceId = request.deviceId
      | _ => true
    | none => true
  | _ => true

def Directory.orderlyRun (s : Directory) : List AliasEvent → Bool
  | [] => true
  | event :: events => s.orderly event && (s.step event).orderlyRun events

/-- A stored name is of the same device as its guards and its requests about to lock. -/
def Agreed (s : Directory) : Prop :=
  ∀ request ∈ s.requests, ∀ name, request.guards name = true ∨ request.stage.locks name = true →
    ∀ owner, s.book.aliasOwner name = some owner → owner = request.deviceId

namespace Agreed

open Counted

variable {s : Directory} {i : Nat} {request : AliasRequest}

theorem move (h : Agreed s) (hi : s.requests[i]? = some request) (stage : Stage)
    {reservations : ReservationState}
    (hstage : ∀ name, stage.guard = some name ∨ stage.locks name = true →
      ∀ owner, s.book.aliasOwner name = some owner → owner = request.deviceId) :
    Agreed { s.setStage i stage with reservations } := by
  intro other hother name hname
  rcases mem_modify hi hother with rfl | hold
  · exact hstage name (hname.imp_left guards_iff.1)
  · exact h other hold name hname

theorem fewer (h : Agreed s) (hi : s.requests[i]? = some request) {stage : Stage}
    (hguard : ∀ name, stage.guard = some name → request.stage.guard = some name)
    (hlocks : ∀ name, stage.locks name = false) {reservations : ReservationState} :
    Agreed { s.setStage i stage with reservations } := by
  refine h.move hi stage fun name hname => ?_
  rcases hname with hname | hname
  · exact h request (List.mem_of_getElem? hi) name (.inl (guards_iff.2 (hguard name hname)))
  · rw [hlocks] at hname
    cases hname

theorem refuse_locks (rest : List DeviceAlias) (error : DaemonError) (name : DeviceAlias) :
    (Stage.refuse rest error).locks name = false := by
  unfold Stage.refuse
  split
  · split <;> rfl
  · rfl

theorem refuse (h : Agreed s) (hi : s.requests[i]? = some request) (rest : List DeviceAlias)
    (error : DaemonError) : Agreed (s.setStage i (Stage.refuse rest error)) := by
  refine h.fewer hi (fun name hname => ?_) (refuse_locks rest error)
  rw [refuse_guard] at hname
  cases hname

theorem begin (h : Agreed s) (deviceId : DeviceId) (renames : Bool) (names : List DeviceAlias) :
    Agreed (s.begin deviceId renames names) := by
  intro request hmem name hname
  rcases List.mem_append.1 hmem with hold | hnew
  · exact h request hold name hname
  · rw [List.mem_singleton.1 hnew, guards_iff, start_guard] at hname
    rcases hname with hname | hname
    · cases hname
    · cases names <;> cases hname

theorem commit (h : Agreed s) (hc : Counted s) (hi : s.requests[i]? = some request)
    {name : DeviceAlias} {guarded : Bool} (hstage : request.stage = .writing name guarded)
    (horderly : s.orderly (.act i .commit) = true) : Agreed (s.commit i request name guarded) := by
  simp only [Directory.orderly, hi, hstage, Bool.and_eq_true, List.all_eq_true] at horderly
  obtain ⟨rfl, hlocking⟩ := horderly
  have hguards : request.guards name = true := by rw [guards_iff, hstage]; rfl
  have hmoved : Agreed (s.setStage i (Directory.afterWrite name true)) :=
    h.fewer hi (fun other hother => by rw [hstage]; exact hother) fun _ => rfl
  unfold Directory.commit
  rcases s.book.write_cases request.deviceId name request.renames with hkept | ⟨hfree, hput⟩
  · rw [hkept]
    exact hmoved
  rw [hput]
  intro other hother other_name hname owner howner
  rcases AddressBook.put_owner hfree howner with ⟨rfl, rfl⟩ | ⟨-, hold⟩
  · -- the name just stored: its guards and its requests about to lock are of this device
    rcases hname with hname | hname
    · obtain ⟨entry, hentry, hdevice⟩ := hc.entry (List.mem_of_getElem? hi) hguards
      rcases mem_modify hi hother with rfl | hmem
      · rfl
      · rw [← hdevice, hc.owner _ entry hentry other hmem hname]
    · rcases mem_modify hi hother with rfl | hmem
      · rfl
      · have hsame := hlocking other hmem
        rw [hname] at hsame
        exact (by simpa using hsame : other.deviceId = request.deviceId).symm
  · exact hmoved other hother other_name hname owner hold

theorem advance (h : Agreed s) (hc : Counted s) (hi : s.requests[i]? = some request)
    (action : AliasAction) (horderly : s.orderly (.act i action) = true) :
    Agreed (s.advance i request action) := by
  have hself := h request (List.mem_of_getElem? hi)
  unfold Directory.advance
  split
  · rename_i name rest hstage
    unfold Directory.look
    split
    · exact h.refuse hi _ _
    split
    · exact h.refuse hi _ _
    · rename_i hfree
      refine h.move hi _ fun other hother => ?_
      rcases hother with hother | hother
      · cases hother
      · obtain rfl : name = other := by simpa [Stage.locks] using hother
        exact AddressBook.claimed_eq_false.1 (by simpa using hfree)
  · rename_i name rest hstage
    unfold Directory.lock
    split
    · refine h.move hi _ fun other hother => ?_
      rcases hother with hother | hother
      · obtain rfl : name = other := Option.some.inj hother
        refine hself name (.inr ?_)
        rw [hstage]
        simp [Stage.locks]
      · cases hother
    · exact h.refuse hi _ _
  · rename_i name hstage
    exact h.fewer hi (fun other hother => by rw [hstage]; exact hother) fun _ => rfl
  · rename_i name guarded hstage
    exact h.commit hc hi hstage horderly
  · rename_i name guarded hstage
    refine h.fewer hi (fun other hother => ?_) fun _ => by cases guarded <;> rfl
    rw [hstage]
    cases guarded
    · cases hother
    · exact hother
  · exact h.fewer hi (fun other hother => by cases hother) fun _ => rfl
  · exact h.fewer hi (fun other hother => by cases hother) fun _ => rfl
  · exact h

theorem step (h : Agreed s) (hc : Counted s) {event : AliasEvent}
    (horderly : s.orderly event = true) : Agreed (s.step event) := by
  cases event with
  | pair deviceId remoteName explicit => exact h.begin _ _ _
  | rename deviceId name => exact h.begin _ _ _
  | act i action =>
    unfold Directory.step
    dsimp only
    split
    · rename_i request hi
      exact h.advance hc hi action horderly
    · exact h

theorem run (h : Agreed s) (hc : Counted s) {events : List AliasEvent}
    (horderly : s.orderlyRun events = true) : Agreed (s.run events) := by
  induction events generalizing s with
  | nil => exact h
  | cons event events ih =>
    obtain ⟨hevent, hevents⟩ := Bool.and_eq_true_iff.1 horderly
    exact ih (h.step hc hevent) (hc.step event) hevents

theorem holds_unique (h : Agreed s) (hc : Counted s) {name : DeviceAlias}
    {deviceId deviceId' : DeviceId} (hholds : s.Holds name deviceId)
    (hholds' : s.Holds name deviceId') : deviceId = deviceId' := by
  rcases hholds with hstored | ⟨request, hmem, rfl, hguards⟩
  · rcases hholds' with hstored' | ⟨request', hmem', rfl, hguards'⟩
    · exact Option.some.inj (hstored.symm.trans hstored')
    · exact h request' hmem' name (.inl hguards') deviceId hstored
  · rcases hholds' with hstored' | ⟨request', hmem', rfl, hguards'⟩
    · exact (h request hmem name (.inl hguards) deviceId' hstored').symm
    · obtain ⟨entry, hentry, hdevice⟩ := hc.entry hmem hguards
      rw [← hdevice, hc.owner name entry hentry request' hmem' hguards']

end Agreed

theorem Counted.start (book : AddressBook) : Counted { book } where
  count := fun _ => rfl
  positive := nofun
  owner := nofun

theorem Agreed.start (book : AddressBook) : Agreed { book } := nofun

/-- In a run whose names are stored only while their guards are held and no other device's request
stands between look-up and lock, a name is held by one device at most, entries are there exactly
while there are guards and count them, and a guard is given only for a valid name that no other
device holds. -/
theorem alias_reservations (book : AddressBook) (events : List AliasEvent)
    (horderly : Directory.orderlyRun { book } events = true) :
    let s := Directory.run { book } events
    (∀ name deviceId deviceId', s.Holds name deviceId → s.Holds name deviceId' →
        deviceId = deviceId') ∧
      (∀ name, (s.reservations name).isSome = true ↔
        ∃ request ∈ s.requests, request.guards name = true) ∧
      (∀ name entry, s.reservations name = some entry →
        entry.count = s.requests.countP (·.guards name) ∧
          ∀ request ∈ s.requests, request.guards name = true →
            request.deviceId = entry.deviceId) ∧
      (∀ request ∈ s.requests, ∀ name rest reservations, request.stage = .locking name rest →
        s.reservations.reserve request.deviceId name = .ok reservations →
        ∀ deviceId, s.Holds name deviceId → deviceId = request.deviceId) ∧
      ∀ request ∈ s.requests, ∀ name, request.guards name = true →
        validateAlias name.value = .ok () ∧ byteLen name.value ≤ 128 := by
  intro s
  have hc : Counted s := (Counted.start book).run events
  have ha : Agreed s := (Agreed.start book).run (Counted.start book) horderly
  refine ⟨fun name _ _ => ha.holds_unique hc, fun name => ?_, fun name entry hentry => ?_, ?_,
    fun request _ name _ => ⟨name.valid, name.bounded⟩⟩
  · constructor
    · intro hsome
      obtain ⟨entry, hentry⟩ := Option.isSome_iff_exists.1 hsome
      have hcount := hc.count name
      rw [hentry] at hcount
      have hpos := hc.positive name entry hentry
      exact List.countP_pos_iff.1 (hcount ▸ hpos)
    · rintro ⟨request, hmem, hguards⟩
      obtain ⟨entry, hentry, -⟩ := hc.entry hmem hguards
      rw [hentry]
      rfl
  · have hcount := hc.count name
    rw [hentry] at hcount
    exact ⟨hcount, hc.owner name entry hentry⟩
  · intro request hrequest name rest reservations hstage hreserve deviceId hholds
    rcases hholds with hstored | ⟨other, hmem, rfl, hguards⟩
    · refine ha request hrequest name (.inr ?_) deviceId hstored
      rw [hstage]
      simp [Stage.locks]
    · obtain ⟨entry, hentry, hdevice⟩ := hc.entry hmem hguards
      rw [← hdevice, (reserve_ok hreserve).2 entry hentry]

/-- Two devices called `x`; the second one finds the name taken and falls back. -/
theorem alias_reservations_fallback :
    let x : DeviceAlias := ⟨['x'], by decide⟩
    let remote : DeviceDisplayName := ⟨"x", by decide, by decide, by decide⟩
    let events : List AliasEvent :=
      [.pair (Vector.replicate 32 1) remote none, .pair (Vector.replicate 32 2) remote none,
        .act 0 (.look none), .act 0 .lock, .act 0 .write, .act 0 .commit, .act 1 (.look none),
        .act 0 .drop, .act 1 (.look none), .act 1 .lock]
    Directory.orderlyRun {} events = true ∧
      (Directory.run {} events).requests.map (·.stage) =
        [.ended none, .held (.disambiguated ['x'] (Vector.replicate 32 2)) false] ∧
      ∀ deviceId deviceId', (Directory.run {} events).Holds x deviceId →
        (Directory.run {} events).Holds x deviceId' → deviceId = deviceId' :=
  ⟨by decide +kernel, by decide +kernel,
    fun _ _ => (alias_reservations {} _ (by decide +kernel)).1 _ _ _⟩

/-- The first device's name is stored and its guard dropped between the other's look-up and lock. -/
theorem stored_name_reserved :
    let x : DeviceAlias := ⟨['x'], by decide⟩
    let remote : DeviceDisplayName := ⟨"x", by decide, by decide, by decide⟩
    let s := Directory.run {}
      [.pair (Vector.replicate 32 1) remote none, .pair (Vector.replicate 32 2) remote none,
        .act 0 (.look none), .act 0 .lock, .act 1 (.look none), .act 0 .write, .act 0 .commit,
        .act 0 .drop, .act 1 .lock]
    s.book.aliasOwner x = some (Vector.replicate 32 1) ∧
      s.requests = [⟨Vector.replicate 32 1, false, .ended none⟩,
        ⟨Vector.replicate 32 2, false, .held x false⟩] := by
  decide +kernel

end Voytty.Pairing
