import RallyPoint.Coordinator.Session.Setup

/-!
# `Coordinator.Session.Rehome` — moving a session off a relay

The model of `coordinator/src/session/rehome.rs`. `rehomeInner` runs under the assignment lock, so a call
is one transition; its three callbacks act on a state of the caller's, which is threaded through. The one
before the mutation may also close a session.

A re-home is a rename: `moveTo` takes the relay that is left to the one that takes over, in the
membership, in the homes of the slots and in the aliases recorded before.

`rehomeInner_cases` says everything a re-home can do.
-/

namespace RallyPoint.Coordinator

open Lib Proto Function Option

inductive RehomeOutcome where
  | stay
  | unavailable
  | newTarget (endpoint : RelayEndpoint)
deriving DecidableEq

/-- The relay `id` after `dead` is replaced by `rNew`. -/
def moveTo (dead rNew id : RelayId) : RelayId := if id = dead then rNew else id

/-- The serving set after the move. The replacement takes the rank of the relay it replaces. -/
def moveMembers (dead rNew : RelayId) (members : List RelayId) : List RelayId :=
  if dead = rNew then members
  else if rNew ∈ members then members.filter (· ≠ dead)
  else members.map (moveTo dead rNew)

namespace SessionSetup

variable (sha256 : Sha256) (s : SessionSetup) (key : SessionKey) (dead : RelayId)

def sessionCapableCohort : Option Bool := (s.sessionRefs key).map (·.capableCohort)

def evidenceCapabilityMatches (e : RelayEntry) : Bool :=
  (s.sessionRefs key).any fun refs => refs.requiredEvidenceSlots.isEmpty || e.evidenceCapable

def certMatchesPin (relay : RelayId) (currentDer : List UInt8) : Bool :=
  match (s.sessionRefs key).bind (·.relayCerts relay) with
  | some recorded => recorded = sha256 currentDer
  | none => true

/-- `recorded_rehome`, and the same lookup in `rehome_inner`. -/
def recordedRehome : Option RelayEndpoint := do
  let existing ← s.rehomes key dead
  let entry ← s.registry.entry existing
  if s.evidenceCapabilityMatches key entry then some entry.endpoint else none

/-- The false-alarm check of `rehome_inner`. -/
def mayStay : Bool :=
  (s.servingRelays key).contains dead && (s.registry.entry dead).any fun entry =>
    s.certMatchesPin sha256 key dead entry.certDer && s.evidenceCapabilityMatches key entry

/-- The relay is on the session's side of the finalized-drop boundary, and has what the session needs. -/
def entryMatches (e : RelayEntry) : Bool :=
  let (cohortCapable, rollback) := ((s.sessionRefs key).map fun refs =>
    (refs.capableCohort, refs.rollback)).getD (false, false)
  e.finalizeCapable == cohortCapable && (!rollback || e.rollbackCapable) && s.evidenceCapabilityMatches key e

/-- The relays a session may move to, by ascending id. -/
def candidates : List RelayEntry := s.registry.availableEntries.filter (s.entryMatches key)

/-- The replacement a re-home picks. -/
def replacement : Option RelayId :=
  let deadRegion : Option RegionId := ((s.sessionRefs key).bind fun refs => refs.relayRegions.get? dead).join
  let entries := s.candidates key
  let servingCandidates := (s.servingRelays key).filter fun id => entries.any (·.relayId = id)
  (deadRegion.bind fun region => nearestRelay entries region servingCandidates s.pairRtts).map
    (·.relayId) <|> servingCandidates.head?
    <|> entries.head?.map (·.relayId)

/-- The next revision of each slot homed on `dead`, unless one would wrap. -/
def assignmentRevisions : Option (List (SlotId × Nat)) :=
  match s.sessionRefs key with
  | none => some []
  | some refs => (refs.homes.entries.filter (·.2 = dead)).mapM fun home => do
      let revision ← checkedAdd u64Max ((refs.evidenceAssignments.get? home.1).getD 0) 1
      return (home.1, revision)

/-- The refs after the move. -/
def moveRefs (refs : SessionRefs) (dead : RelayId) (newEntry : RelayEntry) (revisions : List (SlotId × Nat)) : SessionRefs :=
  { refs with
    homes := refs.homes.mapValues fun _ => moveTo dead newEntry.relayId
    evidenceAssignments := revisions.foldl (fun assignments r => assignments.insert r.1 r.2) refs.evidenceAssignments
    relayCerts := update (update refs.relayCerts dead none) newEntry.relayId (some (sha256 newEntry.certDer))
    relayRegions := (refs.relayRegions.erase dead).insert newEntry.relayId newEntry.region }

/-- Membership, outbox and refs after the move, before anything is published. -/
def moveAssignment (newEntry : RelayEntry) (revisions : List (SlotId × Nat)) (members : List RelayId) : SessionSetup :=
  { s with
    sessionRelays := s.sessionRelays.insert key (moveMembers dead newEntry.relayId members)
    descriptors := s.descriptors.remove dead key
    sessionRefs := update s.sessionRefs key ((s.sessionRefs key).map fun refs =>
      moveRefs sha256 refs dead newEntry revisions) }

/-- The aliases after the move: those that named `dead` are re-pointed, and one for `dead` is added. -/
def recordAlias (dead rNew : RelayId) : SessionSetup :=
  let aliases : RelayId → Option RelayId := fun x => (s.rehomes key x).map (moveTo dead rNew)
  { s with rehomes := update s.rehomes key (update aliases dead (some rNew)) }

section Body

variable {σ : Type}

/-- The commit of `rehome_inner`, from the mutation on. -/
def commitRehome (s : SessionSetup) (view : σ) (key : SessionKey) (dead : RelayId) (newEntry : RelayEntry)
    (revisions : List (SlotId × Nat)) (members : List RelayId) (readDeparted : σ → List DepartedSlot)
    (assignmentCommitted : RelayId → σ → σ) : SessionSetup × σ :=
  let rNew := newEntry.relayId
  let moved := s.moveAssignment sha256 key dead newEntry revisions members
  let view := assignmentCommitted rNew view
  -- the departures are read here, after the hook; the replacement's descriptor is recorded first
  let servingNow := moved.servingRelays key
  let staged := moved.stage key true (readDeparted view) (servingNow.filter (· = rNew) ++ servingNow.filter (· ≠ rNew))
  (staged.recordAlias key dead rNew, view)

def rehomeInner (s : SessionSetup) (view : σ) (key : SessionKey) (dead : RelayId) (allowStay : Bool)
    (readDeparted : σ → List DepartedSlot) (beforeMutation : SessionSetup → σ → SessionSetup × σ)
    (assignmentCommitted : RelayId → σ → σ) : SessionSetup × σ × RehomeOutcome :=
  if s.servingRelays key = [] then (s, view, .unavailable)
  else match s.recordedRehome key dead with
    | some endpoint => (s, view, .newTarget endpoint)
    | none =>
      if allowStay && s.mayStay sha256 key dead then (s, view, .stay)
      else if dead ∉ s.servingRelays key then (s, view, .unavailable)
      else match (s.replacement key dead).bind s.registry.entry, s.assignmentRevisions key dead with
        | some newEntry, some revisions =>
          let (s, view) := beforeMutation s view
          match s.sessionRelays.get? key with
          | none => (s, view, .unavailable)
          | some members =>
            if dead ∉ members then (s, view, .unavailable)
            else
              let (s, view) := s.commitRehome sha256 view key dead newEntry revisions members
                readDeparted assignmentCommitted
              (s, view, .newTarget newEntry.endpoint)
        | _, _ => (s, view, .unavailable)

end Body

def rehome (departedSlots : List DepartedSlot) : SessionSetup × RehomeOutcome :=
  let (s, _, outcome) := s.rehomeInner sha256 () key dead true (fun _ => departedSlots) Prod.mk (fun _ => id)
  (s, outcome)

/-- A relay that is alive must still be left. -/
def rehomeEvicting (evicted : RelayId) (departedSlots : List DepartedSlot) : SessionSetup × RehomeOutcome :=
  let (s, _, outcome) := s.rehomeInner sha256 () key evicted false (fun _ => departedSlots) Prod.mk (fun _ => id)
  (s, outcome)

def rehomeWithAssignmentCommit {σ : Type} (s : SessionSetup) (view : σ) (key : SessionKey) (dead : RelayId)
    (readDeparted : σ → List DepartedSlot) (assignmentCommitted : RelayId → σ → σ) : SessionSetup × σ × RehomeOutcome :=
  s.rehomeInner sha256 view key dead true readDeparted Prod.mk assignmentCommitted

def refreshResumedDescriptors (departedSlots : List DepartedSlot) : SessionSetup :=
  let serving := s.servingRelays key
  if serving.any fun relay => (s.descriptors.currentFor relay).any fun d => d.key = key ∧ d.resumed then
    s.stage key true departedSlots serving
  else s

/-! ## The commit -/

section Commit

variable {σ : Type} (s : SessionSetup) (view : σ) (key : SessionKey) (dead : RelayId) (newEntry : RelayEntry)
  (revisions : List (SlotId × Nat)) (members : List RelayId) (readDeparted : σ → List DepartedSlot)
  (assignmentCommitted : RelayId → σ → σ)

/-- What a move writes, the outboxes apart. -/
theorem commitRehome_eq :
    (s.commitRehome sha256 view key dead newEntry revisions members readDeparted assignmentCommitted).1 =
      { s with
        sessionRelays := s.sessionRelays.insert key (moveMembers dead newEntry.relayId members)
        sessionRefs :=
          update s.sessionRefs key ((s.sessionRefs key).map fun refs => moveRefs sha256 refs dead newEntry revisions)
        rehomes :=
          update s.rehomes key (update (fun x => (s.rehomes key x).map (moveTo dead newEntry.relayId)) dead
            (some newEntry.relayId))
        descriptors :=
          (s.commitRehome sha256 view key dead newEntry revisions members readDeparted
            assignmentCommitted).1.descriptors } := by
  unfold commitRehome
  dsimp only
  rw [stage_eq]
  rfl

/-- **Who is staged after a move**: whoever serves, resumed; the relay that was left is not. -/
theorem currentDescriptor_commitRehome (relay : RelayId) (key' : SessionKey) :
    (s.commitRehome sha256 view key dead newEntry revisions members readDeparted
      assignmentCommitted).1.descriptors.currentDescriptor
        relay key' =
      if key' = key then
        if relay ∈ moveMembers dead newEntry.relayId members then
          (s.moveAssignment sha256 key dead newEntry revisions members).buildDescriptor key relay true
              (readDeparted (assignmentCommitted newEntry.relayId view)) <|>
            if relay = dead then none else s.descriptors.currentDescriptor relay key
        else if relay = dead then none
        else s.descriptors.currentDescriptor relay key
      else s.descriptors.currentDescriptor relay key' := by
  have hserving : (s.moveAssignment sha256 key dead newEntry revisions members).servingRelays key =
      moveMembers dead newEntry.relayId members := by
    unfold servingRelays moveAssignment
    rw [OrdMap.get?_insert_self]
    rfl
  have hremoved : (s.moveAssignment sha256 key dead newEntry revisions members).descriptors.currentDescriptor relay key' =
      if relay = dead ∧ key' = key then none else s.descriptors.currentDescriptor relay key' :=
    RelayDescriptors.currentDescriptor_remove _ _ _ _ _
  unfold commitRehome
  dsimp only
  show RelayDescriptors.currentDescriptor (SessionSetup.descriptors (stage _ _ _ _ _)) relay key' = _
  rw [currentDescriptor_stage, hremoved, hserving]
  by_cases hkey : key' = key
  · subst hkey
    by_cases hmem : relay ∈ moveMembers dead newEntry.relayId members
    · by_cases hnew : relay = newEntry.relayId <;> simp [hmem, hnew]
    · simp [hmem]
  · simp [hkey]

end Commit

/-! ## What a re-home can do -/

section Spec

theorem mem_candidates {e : RelayEntry} :
    e ∈ s.candidates key ↔
      (∃ r, s.registry.registered e.relayId = some r ∧ r.draining = false ∧ r.entry = e) ∧ s.entryMatches key e = true := by
  unfold candidates
  rw [List.mem_filter, RelayRegistry.mem_availableEntries]

/-- **The replacement is one of the candidates.** -/
theorem replacement_mem {dead rNew : RelayId} (h : s.replacement key dead = some rNew) :
    ∃ e ∈ s.candidates key, e.relayId = rNew := by
  unfold replacement at h
  dsimp only at h
  simp only [orElse_eq_orElse, orElse_eq_or] at h
  rcases or_eq_some_iff.mp h with hnear | ⟨-, h⟩
  · obtain ⟨e, he, rfl⟩ := map_eq_some_iff.mp hnear
    obtain ⟨region, -, hnearest⟩ := bind_eq_some_iff.mp he
    exact ⟨e, nearestRelay_mem hnearest, rfl⟩
  · rcases or_eq_some_iff.mp h with hserving | ⟨-, hfirst⟩
    · obtain ⟨e, he, hid⟩ := List.any_eq_true.mp (List.mem_filter.mp (List.mem_of_head? hserving)).2
      exact ⟨e, he, by simpa using hid⟩
    · obtain ⟨e, he, rfl⟩ := map_eq_some_iff.mp hfirst
      exact ⟨e, List.mem_of_head? he, rfl⟩

/-- The entry of the replacement is a candidate itself. -/
theorem replacement_entry {dead : RelayId} {newEntry : RelayEntry}
    (h : (s.replacement key dead).bind s.registry.entry = some newEntry) : newEntry ∈ s.candidates key := by
  obtain ⟨rNew, hpick, hentry⟩ := bind_eq_some_iff.mp h
  obtain ⟨e, he, rfl⟩ := s.replacement_mem key hpick
  obtain ⟨⟨r, hr, -, hre⟩, -⟩ := (s.mem_candidates key).mp he
  obtain ⟨r', hr', rfl⟩ := map_eq_some_iff.mp hentry
  obtain rfl : r = r' := some.inj (hr.symm.trans hr')
  rw [hre]
  exact he

variable {σ : Type} (view : σ) (dead : RelayId) (allowStay : Bool) (readDeparted : σ → List DepartedSlot)
  (beforeMutation : SessionSetup → σ → SessionSetup × σ) (assignmentCommitted : RelayId → σ → σ)

/-- What a re-home can do. -/
inductive RehomeStep : SessionSetup × σ × RehomeOutcome → Prop where
  | unavailable : RehomeStep (s, view, .unavailable)
  | stay (hallow : allowStay = true) (hstay : s.mayStay sha256 key dead = true) : RehomeStep (s, view, .stay)
  /-- The move was made before. -/
  | recorded (endpoint : RelayEndpoint) (hserving : s.servingRelays key ≠ [])
      (hrecorded : s.recordedRehome key dead = some endpoint) : RehomeStep (s, view, .newTarget endpoint)
  /-- The session is gone by the time of the mutation. -/
  | closed : RehomeStep ((beforeMutation s view).1, (beforeMutation s view).2, .unavailable)
  | moved (newEntry : RelayEntry) (revisions : List (SlotId × Nat)) (members : List RelayId)
      (hrecorded : s.recordedRehome key dead = none) (hcandidate : newEntry ∈ s.candidates key)
      (hmembers : (beforeMutation s view).1.sessionRelays.get? key = some members) (hdead : dead ∈ members) :
      RehomeStep (((beforeMutation s view).1.commitRehome sha256 (beforeMutation s view).2 key dead newEntry
        revisions members readDeparted
            assignmentCommitted).1,
          ((beforeMutation s view).1.commitRehome sha256 (beforeMutation s view).2 key dead
            newEntry revisions members readDeparted
            assignmentCommitted).2,
          .newTarget newEntry.endpoint)

/-- **Everything a re-home can do.** -/
theorem rehomeInner_cases :
    RehomeStep sha256 s key view dead allowStay readDeparted beforeMutation assignmentCommitted
      (s.rehomeInner sha256 view key dead allowStay readDeparted beforeMutation assignmentCommitted) := by
  unfold rehomeInner
  by_cases hserving : s.servingRelays key = []
  · rw [if_pos hserving]
    exact .unavailable
  rw [if_neg hserving]
  cases hrecorded : s.recordedRehome key dead with
  | some endpoint => exact .recorded endpoint hserving hrecorded
  | none =>
    dsimp only
    by_cases hstay : (allowStay && s.mayStay sha256 key dead) = true
    · rw [if_pos hstay]
      obtain ⟨hallow, hmay⟩ := Bool.and_eq_true_iff.mp hstay
      exact .stay hallow hmay
    rw [if_neg hstay]
    by_cases hdead : dead ∉ s.servingRelays key
    · rw [if_pos hdead]
      exact .unavailable
    rw [if_neg hdead]
    cases hentry : (s.replacement key dead).bind s.registry.entry with
    | none => exact .unavailable
    | some newEntry =>
      cases s.assignmentRevisions key dead with
      | none => exact .unavailable
      | some revisions =>
        dsimp only
        cases hmembers : (beforeMutation s view).1.sessionRelays.get? key with
        | none => exact .closed
        | some members =>
          dsimp only
          by_cases hmem : dead ∉ members
          · rw [if_pos hmem]
            exact .closed
          · rw [if_neg hmem]
            exact .moved newEntry revisions members hrecorded (s.replacement_entry key hentry) hmembers (not_not.mp hmem)

end Spec

end SessionSetup

end RallyPoint.Coordinator
