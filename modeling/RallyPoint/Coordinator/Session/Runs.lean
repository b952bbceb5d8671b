import RallyPoint.Lib.Trace
import RallyPoint.Coordinator.Session.Create
import RallyPoint.Coordinator.Session.Enrollment

/-!
# `Coordinator.Session.Runs` — session setup as one machine

Every call that changes the session setup while it holds the assignment lock, as one operation, and runs
of them. A re-home may have a close in its middle: the close takes the membership at the seam before the
mutation, and comes to its end when the re-home lets go of its locks.

What a create or a re-home does to the setup does not depend on what its caller does in the hooks
(`createBody_apply`, `rehomeInner_apply`). `Commits` lists the commits a call is made of: a property that
each of them keeps is kept by every call (`Commits.keeps`).
-/

namespace RallyPoint.Coordinator

open Lib Proto Function Option

/-- A call under the assignment lock. -/
inductive SetupOp where
  | create (request : SessionRequest) (expiresAt : U64) (policy : CreatePolicy)
  /-- A re-home, with the departures its caller reads, and a session that is closed in its middle. -/
  | rehome (key : SessionKey) (dead : RelayId) (allowStay : Bool) (departedSlots : List DepartedSlot)
      (close : Option SessionKey)
  | recordedRehome (key : SessionKey) (dead : RelayId)
  | refresh (key : SessionKey) (departedSlots : List DepartedSlot)
  | retire (key : SessionKey)
  | settleLobby (key : SessionKey) (expected : List RelayId) (stillCurrent : Bool)
  | enroll (hello : RelayHello)
  | disconnect (relay : RelayId) (generation : Nat)
  | setDraining (draining : Bool) (relay : RelayId) (generation : Nat)
  | forgetRelay (relay : RelayId)
  | measure (pairRtts : PairRtts)

/-- The call may bring a session into being, or move one. -/
def SetupOp.moves : SetupOp → Bool
  | .create .. | .rehome .. => true
  | _ => false

/-- The call may stage a resumed descriptor. -/
def SetupOp.resumes : SetupOp → Bool
  | .rehome .. | .refresh .. => true
  | _ => false

inductive SetupAnswer where
  | created (result : CreateResult)
  | rehomed (outcome : RehomeOutcome)
  | recorded (endpoint : Option RelayEndpoint)
  | enrolled (result : Except EnrollConflict Enrolled)
  | applied (applied : Bool)
  | done

namespace SessionSetup

variable (sha256 : Sha256)

/-- The close at the seam: it has the membership, and goes on later. -/
def closeSeam (close : Option SessionKey) (s : SessionSetup) (taken : Option (List RelayId)) :
    SessionSetup × Option (List RelayId) :=
  match close with
  | none => (s, taken)
  | some key => ((s.takeSessionMembership key).1, some (s.takeSessionMembership key).2)

/-- The rest of the close, or all of it if the re-home did not come as far as the seam. -/
def finishClose (close : Option SessionKey) (s : SessionSetup) (taken : Option (List RelayId)) : SessionSetup :=
  match close, taken with
  | none, _ => s
  | some key, some taken => s.dropTaken key taken
  | some key, none => s.retireSession key

/-- A re-home with a close in its middle. -/
def rehomeClosing (s : SessionSetup) (key : SessionKey) (dead : RelayId) (allowStay : Bool)
    (departedSlots : List DepartedSlot) (close : Option SessionKey) : SessionSetup × RehomeOutcome :=
  let (s, taken, outcome) :=
    s.rehomeInner sha256 none key dead allowStay (fun _ => departedSlots) (closeSeam close) (fun _ => id)
  (s.finishClose close taken, outcome)

def apply (s : SessionSetup) : SetupOp → SessionSetup × SetupAnswer
  | .create request expiresAt policy =>
    let (s, _, result) := s.createBody sha256 () request expiresAt policy (fun _ _ => id)
    (s, .created result)
  | .rehome key dead allowStay departedSlots close =>
    let (s, outcome) := s.rehomeClosing sha256 key dead allowStay departedSlots close
    (s, .rehomed outcome)
  | .recordedRehome key dead => (s, .recorded (s.recordedRehome key dead))
  | .refresh key departedSlots => (s.refreshResumedDescriptors key departedSlots, .done)
  | .retire key => (s.retireSession key, .done)
  | .settleLobby key expected stillCurrent =>
    let (s, applied) := s.settleLobby key expected stillCurrent
    (s, .applied applied)
  | .enroll hello =>
    let (s, result) := s.enrollLocked sha256 hello
    (s, .enrolled result)
  | .disconnect relay generation =>
    let (registry, applied) := s.registry.removeIfCurrent relay generation
    ({ s with registry }, .applied applied)
  | .setDraining draining relay generation =>
    let (registry, applied) := RelayRegistry.setDraining draining s.registry relay generation
    ({ s with registry }, .applied applied)
  | .forgetRelay relay => (s.forgetRelay relay, .done)
  | .measure pairRtts => ({ s with pairRtts }, .done)

/-- The setup and the log after a list of calls. -/
def run (s : SessionSetup) (ops : List SetupOp) : SessionSetup × List (SetupOp × SetupAnswer) :=
  Trace.run (apply sha256) s ops

/-! ## Calls with a state of the caller's -/

section View

variable {σ : Type} (s : SessionSetup) (view : σ)

/-- What a create does to the setup does not depend on its hook. -/
theorem createBody_apply (request : SessionRequest) (expiresAt : U64) (policy : CreatePolicy)
    (onCommit : SessionId → List RelayId → σ → σ) :
    s.apply sha256 (.create request expiresAt policy) = ((s.createBody sha256 view request expiresAt policy onCommit).1,
        .created (s.createBody sha256 view request expiresAt policy onCommit).2.2) := by
  show ((s.createBody sha256 () request expiresAt policy fun _ _ => id).1,
    SetupAnswer.created (s.createBody sha256 () request expiresAt policy fun _ _ => id).2.2) = _
  unfold createBody
  cases s.replay request with
  | some answer => rfl
  | none =>
    dsimp only
    cases validateRequest request with
    | error e => rfl
    | ok u =>
      dsimp only
      split
      · rfl
      · rcases s.holdUntilReady request policy with ⟨s, _ | regions⟩
        · dsimp only
          unfold placeAndCommit
          cases placeByRegion sha256 s.registry s.pairRtts request s.nextSession s.finalizeFeature with
          | error e => rfl
          | ok placement =>
            dsimp only
            cases s.tenants request.tenant with
            | none => rfl
            | some tenant =>
              dsimp only
              cases mintTokens s.tenants request.tenant s.nextSession expiresAt request.players <;> rfl
        · rfl

omit view in
/-- Without a close in its middle, a re-home is `rehome_inner` as its callers use it. -/
theorem rehomeClosing_none (key : SessionKey) (dead : RelayId) (allowStay : Bool) (departedSlots : List DepartedSlot) :
    s.rehomeClosing sha256 key dead allowStay departedSlots none =
      ((s.rehomeInner sha256 (none : Option (List RelayId)) key dead allowStay (fun _ => departedSlots)
        Prod.mk (fun _ => id)).1,
        (s.rehomeInner sha256 (none : Option (List RelayId)) key dead allowStay (fun _ => departedSlots)
          Prod.mk (fun _ => id)).2.2) := by
  unfold rehomeClosing
  rfl

/-- What a re-home does to the setup depends on its hooks only by the departures they read. -/
theorem rehomeInner_apply (key : SessionKey) (dead : RelayId) (allowStay : Bool) (readDeparted : σ → List DepartedSlot)
    (assignmentCommitted : RelayId → σ → σ) (departedSlots : List DepartedSlot)
    (hdeparted : ∀ newEntry, (s.replacement key dead).bind s.registry.entry = some newEntry →
      departedSlots = readDeparted (assignmentCommitted newEntry.relayId view)) :
    s.apply sha256 (.rehome key dead allowStay departedSlots none) =
      ((s.rehomeInner sha256 view key dead allowStay readDeparted Prod.mk assignmentCommitted).1,
        .rehomed (s.rehomeInner sha256 view key dead allowStay readDeparted Prod.mk assignmentCommitted).2.2) := by
  show ((s.rehomeClosing sha256 key dead allowStay departedSlots none).1,
    SetupAnswer.rehomed (s.rehomeClosing sha256 key dead allowStay departedSlots none).2) = _
  rw [rehomeClosing_none]
  unfold rehomeInner
  split
  · rfl
  · cases s.recordedRehome key dead with
    | some endpoint => rfl
    | none =>
      dsimp only
      split
      · rfl
      · split
        · rfl
        · cases hentry : (s.replacement key dead).bind s.registry.entry with
          | none => rfl
          | some newEntry =>
            obtain rfl := hdeparted newEntry hentry
            cases s.assignmentRevisions key dead with
            | none => rfl
            | some revisions =>
              dsimp only
              cases s.sessionRelays.get? key with
              | none => rfl
              | some members =>
                dsimp only
                split <;> rfl

theorem exists_rehomeInner_apply (key : SessionKey) (dead : RelayId) (allowStay : Bool)
    (readDeparted : σ → List DepartedSlot) (assignmentCommitted : RelayId → σ → σ) :
    ∃ departedSlots, s.apply sha256 (.rehome key dead allowStay departedSlots none) =
      ((s.rehomeInner sha256 view key dead allowStay readDeparted Prod.mk assignmentCommitted).1,
        .rehomed (s.rehomeInner sha256 view key dead allowStay readDeparted Prod.mk assignmentCommitted).2.2) := by
  refine ⟨((s.replacement key dead).bind s.registry.entry).elim []
    fun newEntry => readDeparted (assignmentCommitted newEntry.relayId view), ?_⟩
  refine s.rehomeInner_apply sha256 view key dead allowStay readDeparted assignmentCommitted _ ?_
  intro newEntry hentry
  rw [hentry]
  rfl

end View

end SessionSetup

/-! ## What a call does to the registry -/

/-- A change of the registry: which enrollments it may be, and which marks it may take back. -/
structure RegistryStep (enrolls : RelayHello → Prop) (clears : RelayId → Nat → Prop) (reg reg' : RelayRegistry) : Prop where
  nextGeneration_le : reg.nextGeneration ≤ reg'.nextGeneration
  entry : ∀ {id r}, reg'.registered id = some r →
    (∃ hello, enrolls hello ∧ id = hello.relayId ∧ r.entry = hello.entry ∧ reg.nextGeneration ≤ r.generation ∧
      r.generation < reg'.nextGeneration) ∨
    ∃ r₀ draining, reg.registered id = some r₀ ∧ r = { r₀ with draining } ∧
      (draining = r₀.draining ∨ draining = true ∨ clears id r.generation)

namespace RegistryStep

variable {enrolls enrolls' : RelayHello → Prop} {clears clears' : RelayId → Nat → Prop} {reg reg' reg'' : RelayRegistry}

theorem refl (reg : RelayRegistry) : RegistryStep enrolls clears reg reg :=
  ⟨le_rfl, fun hr => .inr ⟨_, _, hr, rfl, .inl rfl⟩⟩

theorem trans (h : RegistryStep enrolls clears reg reg') (h' : RegistryStep enrolls clears reg' reg'') :
    RegistryStep enrolls clears reg reg'' := by
  refine ⟨h.nextGeneration_le.trans h'.nextGeneration_le, fun hr => ?_⟩
  rcases h'.entry hr with ⟨hello, henrolls, hid, hentry, hle, hlt⟩ | ⟨r₁, draining, hr₁, rfl, hmark⟩
  · exact .inl ⟨hello, henrolls, hid, hentry, h.nextGeneration_le.trans hle, hlt⟩
  · rcases h.entry hr₁ with ⟨hello, henrolls, hid, hentry, hle, hlt⟩ | ⟨r₀, draining₀, hr₀, rfl, hmark₀⟩
    · exact .inl ⟨hello, henrolls, hid, hentry, hle, lt_of_lt_of_le hlt h'.nextGeneration_le⟩
    · refine .inr ⟨r₀, draining, hr₀, rfl, ?_⟩
      rcases hmark with rfl | hmark
      · exact hmark₀
      · exact .inr hmark

theorem mono (h : RegistryStep enrolls clears reg reg') (henrolls : ∀ hello, enrolls hello → enrolls' hello)
    (hclears : ∀ relay generation, clears relay generation → clears' relay generation) :
    RegistryStep enrolls' clears' reg reg' := by
  refine ⟨h.nextGeneration_le, fun hr => (h.entry hr).imp ?_ ?_⟩
  · rintro ⟨hello, henroll, hrest⟩
    exact ⟨hello, henrolls hello henroll, hrest⟩
  · rintro ⟨r₀, draining, hr₀, heq, hmark⟩
    exact ⟨r₀, draining, hr₀, heq, hmark.imp id (Or.imp id (hclears _ _))⟩

theorem setDraining (draining : Bool) {relay : RelayId} {generation : Nat}
    (hclears : draining = false → clears relay generation) :
    RegistryStep enrolls clears reg (RelayRegistry.setDraining draining reg relay generation).1 := by
  refine ⟨(reg.nextGeneration_setDraining draining relay generation).ge, fun {id r} hr => .inr ?_⟩
  rw [reg.registered_setDraining] at hr
  obtain ⟨r₀, hr₀, rfl⟩ := map_eq_some_iff.mp hr
  by_cases hit : id = relay ∧ r₀.generation = generation
  · obtain ⟨rfl, rfl⟩ := hit
    rw [if_pos ⟨rfl, rfl⟩]
    refine ⟨r₀, draining, hr₀, rfl, .inr ?_⟩
    cases draining with
    | true => exact .inl rfl
    | false => exact .inr (hclears rfl)
  · rw [if_neg hit]
    exact ⟨r₀, r₀.draining, hr₀, rfl, .inl rfl⟩

theorem removeIfCurrent (relay : RelayId) (generation : Nat) :
    RegistryStep enrolls clears reg (reg.removeIfCurrent relay generation).1 := by
  refine ⟨(reg.nextGeneration_removeIfCurrent relay generation).ge, fun {id r} hr => .inr ?_⟩
  rw [reg.registered_removeIfCurrent] at hr
  obtain ⟨r₀, hr₀, hkeep⟩ := bind_eq_some_iff.mp hr
  split at hkeep
  · cases hkeep
  · obtain rfl := some.inj hkeep
    exact ⟨r₀, r₀.draining, hr₀, rfl, .inl rfl⟩

/-- Without an enrollment, what an entry says of its relay stands. -/
theorem entry_eq (h : RegistryStep (fun _ => False) clears reg reg') {id : RelayId} {e : RelayEntry}
    (he : reg'.entry id = some e) : reg.entry id = some e := by
  obtain ⟨r, hr, rfl⟩ := map_eq_some_iff.mp he
  rcases h.entry hr with ⟨_, henrolls, -⟩ | ⟨r₀, draining, hr₀, rfl, -⟩
  · exact henrolls.elim
  · rw [RelayRegistry.entry, hr₀]
    rfl

end RegistryStep

namespace SessionSetup

variable (sha256 : Sha256)

/-! ## The commits of a call -/

theorem takeSessionMembership_eq (s : SessionSetup) (key : SessionKey) : (s.takeSessionMembership key).1 = { s with
        sessionRelays := s.sessionRelays.erase key
        sessionRefs := update s.sessionRefs key none
        createIdempotency := (s.takeSessionMembership key).1.createIdempotency } := by
  unfold takeSessionMembership
  dsimp only
  rw [freeExternalId_eq]

/-- No session comes, goes or moves, and no relay enrolls. What is staged is for a relay that serves. -/
structure Quiet (op : SetupOp) (s s' : SessionSetup) : Prop where
  nextSession : s'.nextSession = s.nextSession
  sessionRelays : s'.sessionRelays = s.sessionRelays
  rehomes : s'.rehomes = s.rehomes
  createIdempotency : s'.createIdempotency = s.createIdempotency
  tenants : s'.tenants = s.tenants
  sessionCeiling : s'.sessionCeiling = s.sessionCeiling
  sessionRefs : ∀ key, s'.sessionRefs key = s.sessionRefs key ∨
    ∃ refs, s.sessionRefs key = some refs ∧ s'.sessionRefs key = some { refs with lobbySettled := true }
  registry : RegistryStep (fun _ => False) (op = .setDraining false · ·) s.registry s'.registry
  staged : ∀ relay key d, s'.descriptors.currentDescriptor relay key = some d →
    s.descriptors.currentDescriptor relay key = some d ∨ relay ∈ s.servingRelays key ∧ (d.resumed = true → op.resumes = true)

variable {op : SetupOp}

/-- A change of the holds, of the measurements or of the registry. -/
theorem Quiet.of_registry (s : SessionSetup) (pendingCreates : PendingCreates) (pairRtts : PairRtts)
    {registry : RelayRegistry} (h : RegistryStep (fun _ => False) (op = .setDraining false · ·) s.registry registry) :
    Quiet op s { s with pendingCreates, pairRtts, registry } :=
  ⟨rfl, rfl, rfl, rfl, rfl, rfl, fun _ => .inl rfl, h, fun _ _ _ h => .inl h⟩

theorem quiet_stage (s : SessionSetup) (key : SessionKey) {resumed : Bool} (departedSlots : List DepartedSlot)
    {relays : List RelayId} (hrelays : ∀ relay ∈ relays, relay ∈ s.servingRelays key)
    (hresumed : resumed = true → op.resumes = true) :
    Quiet op s (s.stage key resumed departedSlots relays) := by
  have hstaged : ∀ relay key' d, (s.stage key resumed departedSlots relays).descriptors.currentDescriptor
    relay key' = some d →
      s.descriptors.currentDescriptor relay key' = some d ∨ relay ∈ s.servingRelays key' ∧
        (d.resumed = true → op.resumes = true) := by
    intro relay key' d hd
    rcases s.staged_stage key resumed departedSlots hd with hold | ⟨hmem, rfl, rfl⟩
    · exact .inl hold
    · exact .inr ⟨hrelays relay hmem, hresumed⟩
  rw [stage_eq] at hstaged ⊢
  exact ⟨rfl, rfl, rfl, rfl, rfl, rfl, fun _ => .inl rfl, .refl _, hstaged⟩

/-- A close that has taken its session's membership, and the relays it took. -/
abbrev Closing := Option (SessionKey × List RelayId)

/-- **What each commit of a call keeps.** An enrollment is left to the caller. -/
structure Commits (op : SetupOp) (P : Closing → SessionSetup → Prop) : Prop where
  quiet : ∀ {s s'}, Quiet op s s' → P none s → P none s'
  unminted : ∀ {s request expiresAt policy placement e}, op = .create request expiresAt policy → s.replay request = none →
    placeByRegion sha256 s.registry s.pairRtts request s.nextSession s.finalizeFeature = .ok placement →
    (s.tenants request.tenant).isSome → mintTokens s.tenants request.tenant s.nextSession
      expiresAt request.players = .error e →
    P none s → P none (s.commitCreate request placement)
  created : ∀ {s request expiresAt policy placement response}, op = .create request expiresAt policy →
    s.replay request = none →
    placeByRegion sha256 s.registry s.pairRtts request s.nextSession s.finalizeFeature = .ok placement →
    response.session = s.nextSession → P none s → P none ((s.commitCreate request placement).recordCreate request response)
  moved : ∀ {closing s key dead newEntry members} (view : Option (List RelayId)) revisions readDeparted assignmentCommitted,
    op.moves = true → op.resumes = true → s.sessionRelays.get? key = some members → dead ∈ members →
    s.registry.entry newEntry.relayId = some newEntry → P closing s →
    P closing (s.commitRehome sha256 view key dead newEntry revisions members readDeparted assignmentCommitted).1
  take : ∀ {s} key, P none s → P (some (key, s.servingRelays key)) (s.takeSessionMembership key).1
  drop : ∀ {s key taken}, P (some (key, taken)) s → P none (s.dropTaken key taken)

namespace Commits

variable {sha256} {P : Closing → SessionSetup → Prop} {s : SessionSetup}

theorem retire (c : Commits sha256 op P) (h : P none s) (key : SessionKey) :
    P none (s.retireSession key) := c.drop (c.take key h)

theorem create {request : SessionRequest} {expiresAt : U64} {policy : CreatePolicy}
    (c : Commits sha256 (.create request expiresAt policy) P) (h : P none s) :
    P none (s.apply sha256 (.create request expiresAt policy)).1 := by
  rw [s.createBody_apply sha256 () request expiresAt policy fun _ _ => id]
  generalize hresult : s.createBody sha256 () request expiresAt policy (fun _ _ => id) = result
  have hcases := s.createBody_cases sha256 () request expiresAt policy fun _ _ => id
  have hpending : ∀ pendingCreates, P none { s with pendingCreates } :=
    fun pendingCreates => c.quiet (.of_registry s pendingCreates s.pairRtts (.refl _)) h
  rw [hresult] at hcases
  cases hcases with
  | replayed => exact h
  | refused pendingCreates | held pendingCreates => exact hpending pendingCreates
  | unminted pendingCreates placement tenant e hreplay hceiling hplace htenant hmint =>
    exact c.unminted (s := { s with pendingCreates }) rfl hreplay hplace (by rw [htenant]; rfl)
      hmint (hpending pendingCreates)
  | created pendingCreates placement tenant response hreplay hceiling hplace htenant hsession =>
    exact c.created (s := { s with pendingCreates }) rfl hreplay hplace hsession (hpending pendingCreates)

theorem rehome {key : SessionKey} {dead : RelayId} {allowStay : Bool} {departedSlots : List DepartedSlot}
    {close : Option SessionKey}
    (c : Commits sha256 (.rehome key dead allowStay departedSlots close) P) (h : P none s) :
    P none (s.rehomeClosing sha256 key dead allowStay departedSlots close).1 := by
  unfold rehomeClosing
  generalize hresult : s.rehomeInner sha256 none key dead allowStay (fun _ => departedSlots)
    (closeSeam close) (fun _ => id) = result
  have hcases := s.rehomeInner_cases sha256 key none dead allowStay (fun _ => departedSlots) (closeSeam close) (fun _ => id)
  rw [hresult] at hcases
  -- the close that did not begin at the seam is an ordinary one
  have hwhole : P none (s.finishClose close none) := by
    cases close with
    | none => exact h
    | some closed => exact c.retire h closed
  cases hcases with
  | unavailable | stay | recorded => exact hwhole
  | closed =>
    cases close with
    | none => exact h
    | some closed => exact c.retire h closed
  | moved newEntry revisions members hrecorded hcandidate hmembers hdead =>
    have hentry : s.registry.entry newEntry.relayId = some newEntry := by
      obtain ⟨⟨r, hr, -, hre⟩, -⟩ := (s.mem_candidates key).mp hcandidate
      rw [RelayRegistry.entry, hr, ← hre]
      rfl
    cases close with
    | none =>
      exact c.moved (closeSeam none s none).2 revisions (fun _ => departedSlots) (fun _ => id)
        rfl rfl hmembers hdead hentry h
    | some closed =>
      refine c.drop (c.moved _ revisions _ _ rfl rfl hmembers hdead ?_ (c.take closed h))
      show (s.takeSessionMembership closed).1.registry.entry newEntry.relayId = some newEntry
      rw [takeSessionMembership_eq]
      exact hentry

theorem settleLobby (c : Commits sha256 op P) (h : P none s) (key : SessionKey)
    (expected : List RelayId) (stillCurrent : Bool) :
    P none (s.settleLobby key expected stillCurrent).1 := by
  unfold SessionSetup.settleLobby
  dsimp only
  split
  · exact h
  · cases hrefs : s.sessionRefs key with
    | none => exact h
    | some refs =>
      refine c.quiet (quiet_stage _ _ _ (fun _ hrelay => (List.mem_insertionSort _).mp hrelay) (by simp)) ?_
      refine c.quiet (s := s) ⟨rfl, rfl, rfl, rfl, rfl, rfl, ?_, .refl _, fun _ _ _ hd => .inl hd⟩ h
      intro key'
      by_cases hkey : key' = key
      · subst hkey
        exact .inr ⟨refs, hrefs, update_self _ _ _⟩
      · exact .inl (update_of_ne hkey _ _)

/-- **What each commit keeps, every call keeps.** -/
theorem keeps (c : Commits sha256 op P) (h : P none s)
    (henroll : ∀ hello draining, op = .enroll hello → EnrolledAs sha256 s hello draining (s.enrollLocked sha256 hello).1 →
      P none (s.enrollLocked sha256 hello).1) : P none (s.apply sha256 op).1 := by
  cases op with
  | create => exact c.create h
  | rehome => exact c.rehome h
  | recordedRehome => exact h
  | refresh key departedSlots =>
    show P none (s.refreshResumedDescriptors key departedSlots)
    unfold refreshResumedDescriptors
    dsimp only
    split
    · exact c.quiet (s.quiet_stage key departedSlots (fun _ hrelay => hrelay) fun _ => rfl) h
    · exact h
  | retire key => exact c.retire h key
  | settleLobby key expected stillCurrent => exact c.settleLobby h key expected stillCurrent
  | enroll hello =>
    show P none (s.enrollLocked sha256 hello).1
    rcases s.enrollLocked_cases sha256 hello with ⟨conflict, heq⟩ | ⟨enrolled, draining, -, -, has⟩
    · rw [heq]
      exact h
    · exact henroll hello draining rfl has
  | disconnect relay generation =>
    exact c.quiet (.of_registry s s.pendingCreates s.pairRtts (.removeIfCurrent relay generation)) h
  | setDraining draining relay generation =>
    exact c.quiet (.of_registry s s.pendingCreates s.pairRtts (.setDraining draining fun hfalse => by rw [hfalse])) h
  | forgetRelay target =>
    refine c.quiet (s := s) ⟨rfl, rfl, rfl, rfl, rfl, rfl, fun _ => .inl rfl,
      ⟨le_rfl, fun hr => .inr ⟨_, _, hr, rfl, .inl rfl⟩⟩, ?_⟩ h
    intro relay key d hd
    have hd := (s.descriptors.currentDescriptor_forget target relay key).symm.trans hd
    split at hd
    · cases hd
    · exact .inl hd
  | measure pairRtts => exact c.quiet (.of_registry s s.pendingCreates pairRtts (.refl _)) h

end Commits

/-- **What a call does to the registry.** -/
theorem apply_registry (s : SessionSetup) (op : SetupOp) :
    RegistryStep (op = .enroll ·) (op = .setDraining false · ·) s.registry (s.apply sha256 op).1.registry := by
  refine Commits.keeps (P := fun _ s' => RegistryStep (op = .enroll ·) (op = .setDraining false · ·) s.registry s'.registry)
    ⟨?_, ?_, ?_, ?_, ?_, fun h => h⟩ (.refl _) ?_
  · exact fun hquiet h => h.trans (hquiet.registry.mono (fun _ => False.elim) fun _ _ => id)
  · intro s₁ request expiresAt policy placement e _ _ _ _ _ h
    rw [commitCreate_eq]
    exact h
  · intro s₁ request expiresAt policy placement response _ _ _ _ h
    rw [recordCreate_eq, commitCreate_eq]
    exact h
  · intro closing s₁ key dead newEntry members view revisions readDeparted assignmentCommitted _ _ _ _ _ h
    rw [commitRehome_eq]
    exact h
  · intro s₁ key h
    rw [takeSessionMembership_eq]
    exact h
  · intro hello draining hop has
    refine ⟨has.nextGeneration ▸ Nat.le_succ _, fun {id r} hr => ?_⟩
    rw [has.registered] at hr
    split at hr
    · rename_i hid
      obtain rfl := some.inj hr
      exact .inl ⟨hello, hop, hid, rfl, le_rfl, has.nextGeneration ▸ Nat.lt_succ_self _⟩
    · exact .inr ⟨r, r.draining, hr, rfl, .inl rfl⟩

end SessionSetup

/-! ## A small deployment

One tenant, relays that differ in certificate and capabilities, and a session of one player: what the runs on fixed inputs of
the development start from. The digest is injective on short certificates. -/

namespace Demo

def digest (bytes : List UInt8) : Fingerprint := BitVec.ofNat 256 (bytes.foldl (fun n b => 256 * n + b.toNat) 1)

def hello (relay : RelayId) (certDer : List UInt8) (capabilities : List Capability) : RelayHello where
  relayId := relay
  relayAddr := ⟨.v4 0, 0⟩
  certDer := certDer
  capabilities := capabilities
  relayAddrs := []
  region := none
  enrollToken := none
  bootId := none

def signingKey (kid : String) : TenantSigningKey := ⟨⟨kid⟩, fun _ => .replicate signatureLen 0, ⟨1, 4⟩⟩

def tenants (kid : String) : TenantStore := fun tenant => if tenant = "t" then some (signingKey kid) else none

def request (externalId : Option String) : SessionRequest where
  periodicEvidence := false
  evidenceKeys := []
  tenant := "t"
  players := [⟨false, 0, .replicate publicKeyLen 0, none, false, none⟩]
  externalId := externalId
  latencyEstimateMs := none
  rollback := false
  lobbyPolicy := none

/-- A coordinator that has just started, and whose first session gets the id 1. -/
def setup : SessionSetup := .new .new (tenants "k") 1 none none false (fun _ _ => none)

end Demo

end RallyPoint.Coordinator
