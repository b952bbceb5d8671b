import RallyPoint.Coordinator.Descriptors
import RallyPoint.Coordinator.Session.Placement

/-!
# `Coordinator.Session.Setup` — the maps behind a session, and its retirement

The model of `SessionSetup` (`coordinator/src/session/setup.rs`), with what the maps hold
(`session/mod.rs`, `session/gate.rs`) and the building of descriptors from them
(`session/descriptor.rs`).

A function here is what its source does while the assignment lock is held. What only evidence reporting,
load-state reads, rate limits and slot closes look at is not part of the state.

The staged descriptors are a function of the other maps, so a loop that builds and records them is one
definition, `stage`, and is used through `currentDescriptor_stage`.
-/

namespace RallyPoint.Coordinator

open Lib Proto Function Option

/-- A tenant's signing key, as the function that signs with it, and its policy. -/
structure TenantSigningKey where
  kid : KeyId
  sign : List UInt8 → List.Vector UInt8 signatureLen
  bounds : BufferBounds

abbrev TenantStore := TenantId → Option TenantSigningKey

/-- What is recorded of a session besides the relays that serve it. -/
structure SessionRefs where
  periodicEvidence : Bool := false
  evidenceKeys : List EvidenceKey := []
  requiredEvidenceSlots : List SlotId := []
  evidenceAssignments : OrdMap SlotId Nat := .empty
  externalId : Option String := none
  finalizedDrops : Bool := false
  capableCohort : Bool := false
  rollback : Bool := false
  slots : List (SlotId × String) := []
  observers : List SlotId := []
  expected : List SlotId := []
  homes : OrdMap SlotId RelayId := .empty
  relayCerts : RelayId → Option Fingerprint := fun _ => none
  relayRegions : OrdMap RelayId (Option RegionId) := .empty
  latencyEstimateMs : Option U32 := none
  lobbyPolicy : Option LobbyPolicy := none
  lobbySettled : Bool := false

/-! ## The fingerprint of a create -/

structure FingerprintPlayer where
  requireEvidence : Bool
  slot : SlotId
  clientPubkey : ClientPublicKey
  observer : Bool
  externalRef : Option String
  region : Option RegionId
deriving DecidableEq

/-- What a repeated create is compared by. -/
structure CreateFingerprint where
  players : List FingerprintPlayer
  evidenceKeys : List EvidenceKey
  periodicEvidence : Bool
  latencyEstimateMs : Option U32
  lobbyPolicy : Option LobbyPolicy
deriving DecidableEq

def FingerprintPlayer.ofHandoff (p : PlayerHandoff) : FingerprintPlayer :=
  ⟨p.requireEvidence, p.slot, p.clientPubkey, p.observer, p.externalRef, p.region⟩

/-- `CreateFingerprint::from_request`. Neither the order of the players nor that of the keys matters. -/
def CreateFingerprint.fromRequest (request : SessionRequest) : CreateFingerprint where
  players := (request.players.map .ofHandoff).insertionSort fun a b => a.slot ≤ b.slot
  evidenceKeys := request.evidenceKeys.insertionSort fun a b => a.keyId ≤ b.keyId
  periodicEvidence := request.periodicEvidence
  latencyEstimateMs := request.latencyEstimateMs
  lobbyPolicy := request.lobbyPolicy

/-- The response a repeated create gets. -/
structure CachedCreate where
  fingerprint : CreateFingerprint
  response : SessionResponse

/-! ## The setup -/

/-- The registries, the maps over sessions, and the configuration. The source counts session ids in a
    `u64`, which is assumed not to come round. -/
structure SessionSetup where
  registry : RelayRegistry
  tenants : TenantStore
  sessionRelays : OrdMap SessionKey (List RelayId)
  sessionRefs : SessionKey → Option SessionRefs
  descriptors : RelayDescriptors
  nextSession : SessionId
  rehomes : SessionKey → RelayId → Option RelayId
  createIdempotency : ExternalKey → Option CachedCreate
  createHold : Option Nat
  pendingCreates : PendingCreates
  sessionCeiling : Option Nat
  finalizeFeature : Bool
  pairRtts : PairRtts

namespace SessionSetup

variable (s : SessionSetup) (key : SessionKey)

/-- `SessionSetup::new`, with the configuration the builders set. -/
def new (registry : RelayRegistry) (tenants : TenantStore) (firstSessionId : SessionId)
    (createHold sessionCeiling : Option Nat)
    (finalizeFeature : Bool) (pairRtts : PairRtts) : SessionSetup where
  registry
  tenants
  sessionRelays := .empty
  sessionRefs := fun _ => none
  descriptors := .new
  nextSession := firstSessionId
  rehomes := fun _ _ => none
  createIdempotency := fun _ => none
  createHold
  pendingCreates := fun _ => none
  sessionCeiling
  finalizeFeature
  pairRtts

def servingRelays : List RelayId := (s.sessionRelays.get? key).getD []

def sessionCountForRelay (relay : RelayId) : Nat := s.sessionRelays.values.countP (·.contains relay)

def liveSessionCount : Nat := s.sessionRelays.values.countP (!·.isEmpty)

/-! ## Descriptors -/

def relayRegionLabels (relayRegions : OrdMap RelayId (Option RegionId)) : List RelayRegionLabel :=
  relayRegions.entries.filterMap fun e => e.2.map fun region => ⟨e.1, region⟩

def buildDescriptor (relay : RelayId) (resumed : Bool) (departedSlots : List DepartedSlot) : Option SessionDescriptor := do
  let tenant ← s.tenants key.tenant
  let relayIds ← s.sessionRelays.get? key
  let refs := (s.sessionRefs key).getD {}
  return {
    periodicEvidence := refs.periodicEvidence && (s.registry.entry relay).any (·.has .periodicEvidenceV1)
    evidenceKeys := refs.evidenceKeys
    requiredEvidenceSlots := refs.requiredEvidenceSlots
    evidenceAssignments := refs.evidenceAssignments.entries.map fun e => ⟨e.1, e.2⟩
    tenant := key.tenant
    session := key.session
    peers := (relayIds.filter (· ≠ relay)).filterMap s.registry.peer
    bounds := tenant.bounds
    authorityOrder := relayIds
    externalId := refs.externalId
    slotRefs := refs.slots.map fun e => ⟨e.1, e.2⟩
    observerSlots := refs.observers
    expectedSlots := refs.expected
    homedSlots := (refs.homes.entries.filter (·.2 = relay)).map Prod.fst
    resumed
    finalizedDrops := refs.finalizedDrops
    rollback := refs.rollback
    lobbyPolicy := refs.lobbyPolicy
    lobbySettled := refs.lobbySettled
    departedSlots
    latencyEstimateMs := refs.latencyEstimateMs
    relayRegions := relayRegionLabels refs.relayRegions }

/-- Record a relay's descriptor in its outbox, if one can be built. -/
def stageOne (resumed : Bool) (departedSlots : List DepartedSlot) (relay : RelayId) : SessionSetup :=
  match s.buildDescriptor key relay resumed departedSlots with
  | some d => { s with descriptors := s.descriptors.record relay d }
  | none => s

/-- The loop that builds the descriptor of each relay and records it. -/
def stage (resumed : Bool) (departedSlots : List DepartedSlot) (relays : List RelayId) : SessionSetup :=
  relays.foldl (fun s relay => s.stageOne key resumed departedSlots relay) s

/-! ## Retirement -/

def forgetRehomes : SessionSetup := { s with rehomes := update s.rehomes key fun _ => none }

/-- The replay record a closing session frees: its own, and no other's. -/
def freeExternalId (externalId : Option String) : SessionSetup :=
  match externalId with
  | none => s
  | some externalId =>
    if (s.createIdempotency (key.tenant, externalId)).any (·.response.session = key.session) then
      { s with createIdempotency := update s.createIdempotency (key.tenant, externalId) none }
    else s

def takeSessionMembership : SessionSetup × List RelayId :=
  let refs := s.sessionRefs key
  ({ s with
      sessionRelays := s.sessionRelays.erase key
      sessionRefs := update s.sessionRefs key none }.freeExternalId key (refs.bind (·.externalId)),
    s.servingRelays key)

/-- The rest of `retire_session`, once the membership is taken. -/
def dropTaken (taken : List RelayId) : SessionSetup :=
  { s with descriptors := taken.foldl (fun ds relay => ds.remove relay key) s.descriptors }.forgetRehomes key

def retireSession : SessionSetup :=
  let (s, taken) := s.takeSessionMembership key
  s.dropTaken key taken

def forgetRelay (relay : RelayId) : SessionSetup :=
  { s with descriptors := s.descriptors.forget relay, registry := s.registry.forgetBootId relay }

/-- `settle_lobby`. Whether what the caller read is still current is an argument. -/
def settleLobby (expected : List RelayId) (stillCurrent : Bool) : SessionSetup × Bool :=
  let serving := (s.servingRelays key).insertionSort (· ≤ ·)
  if serving ≠ expected.insertionSort (· ≤ ·) ∨ serving = [] ∨ !stillCurrent then (s, false)
  else match s.sessionRefs key with
    | none => (s, false)
    | some refs =>
      ({ s with sessionRefs := update s.sessionRefs key (some { refs with lobbySettled := true }) }.stage
        key false [] serving, true)

/-! ## What staging does -/

section Stage

variable (resumed : Bool) (departedSlots : List DepartedSlot)

variable {d : SessionDescriptor} {relay : RelayId}

theorem buildDescriptor_eq_some (h : s.buildDescriptor key relay resumed departedSlots = some d) :
    d.key = key ∧ d.resumed = resumed ∧ d.departedSlots = departedSlots := by
  unfold buildDescriptor at h
  obtain ⟨tenant, -, h⟩ := bind_eq_some_iff.mp h
  obtain ⟨relayIds, -, h⟩ := bind_eq_some_iff.mp h
  obtain rfl := some.inj h
  exact ⟨rfl, rfl, rfl⟩

/-- A descriptor can be built for any relay, if the tenant is known and the session assigned. -/
theorem buildDescriptor_isSome {tenant : TenantSigningKey} {relayIds : List RelayId}
    (htenant : s.tenants key.tenant = some tenant)
    (hrelays : s.sessionRelays.get? key = some relayIds) (relay : RelayId) :
    ∃ d, s.buildDescriptor key relay resumed departedSlots = some d := by
  unfold buildDescriptor
  rw [htenant, hrelays]
  exact ⟨_, rfl⟩

/-- Staging touches the outboxes only. -/
theorem stageOne_eq (relay : RelayId) :
    s.stageOne key resumed departedSlots relay =
      { s with descriptors := (s.stageOne key resumed departedSlots relay).descriptors } := by
  unfold stageOne
  cases s.buildDescriptor key relay resumed departedSlots <;> rfl

theorem stage_eq (relays : List RelayId) :
    s.stage key resumed departedSlots relays =
      { s with descriptors := (s.stage key resumed departedSlots relays).descriptors } := by
  unfold stage
  induction relays generalizing s with
  | nil => rfl
  | cons relay relays ih =>
    rw [List.foldl_cons, ih]
    rw [stageOne_eq]

theorem currentDescriptor_stageOne (target relay : RelayId) (key' : SessionKey) :
    (s.stageOne key resumed departedSlots target).descriptors.currentDescriptor relay key' =
      if relay = target ∧ key' = key then
        s.buildDescriptor key target resumed departedSlots <|> s.descriptors.currentDescriptor relay key'
      else s.descriptors.currentDescriptor relay key' := by
  unfold stageOne
  cases hbuild : s.buildDescriptor key target resumed departedSlots with
  | none => simp
  | some d =>
    dsimp only
    rw [RelayDescriptors.currentDescriptor_record, (s.buildDescriptor_eq_some key resumed departedSlots hbuild).1]
    simp

/-- **Each relay of the loop has the descriptor built for it**, and nothing else changes. -/
theorem currentDescriptor_stage (relays : List RelayId) (relay : RelayId) (key' : SessionKey) :
    (s.stage key resumed departedSlots relays).descriptors.currentDescriptor relay key' = if relay ∈ relays ∧ key' = key then
        s.buildDescriptor key relay resumed departedSlots <|> s.descriptors.currentDescriptor relay key'
      else s.descriptors.currentDescriptor relay key' := by
  unfold stage
  induction relays generalizing s with
  | nil => simp
  | cons target relays ih =>
    rw [List.foldl_cons, ih, currentDescriptor_stageOne]
    -- the descriptor to build does not depend on what is staged
    have hbuild : (s.stageOne key resumed departedSlots target).buildDescriptor key relay resumed departedSlots =
        s.buildDescriptor key relay resumed departedSlots := by
      rw [stageOne_eq]
      rfl
    rw [hbuild]
    by_cases hkey : key' = key
    · by_cases hmem : relay ∈ relays
      · by_cases htarget : relay = target
        · subst htarget
          cases s.buildDescriptor key relay resumed departedSlots <;> simp [hkey, hmem]
        · simp [hkey, hmem, htarget]
      · by_cases htarget : relay = target
        · subst htarget
          simp [hkey, hmem]
        · simp [hkey, hmem, htarget]
    · simp [hkey]

/-- What is staged then was staged before, or is new for a relay of the loop. -/
theorem staged_stage {relays : List RelayId} {key' : SessionKey}
    (h : (s.stage key resumed departedSlots relays).descriptors.currentDescriptor relay key' = some d) :
    s.descriptors.currentDescriptor relay key' = some d ∨ relay ∈ relays ∧ key' = key ∧ d.resumed = resumed := by
  rw [currentDescriptor_stage] at h
  split at h
  · rename_i hmem
    cases hbuild : s.buildDescriptor key relay resumed departedSlots with
    | none =>
      rw [hbuild] at h
      exact .inl h
    | some built =>
      rw [hbuild] at h
      obtain rfl := some.inj h
      exact .inr ⟨hmem.1, hmem.2, (s.buildDescriptor_eq_some key resumed departedSlots hbuild).2.1⟩
  · exact .inl h

end Stage

/-! ## What retirement does -/

section Retire

theorem freeExternalId_eq (externalId : Option String) :
    s.freeExternalId key externalId =
      { s with createIdempotency := (s.freeExternalId key externalId).createIdempotency } := by
  unfold freeExternalId
  cases externalId with
  | none => rfl
  | some externalId =>
    dsimp only
    split <;> rfl

/-- **A replay record stays, or was the session's own.** -/
theorem freeExternalId_createIdempotency (externalId : Option String) (k : ExternalKey) :
    (s.freeExternalId key externalId).createIdempotency k = s.createIdempotency k ∨
      (s.freeExternalId key externalId).createIdempotency k = none ∧
        ∃ cached, s.createIdempotency k = some cached ∧ k.1 = key.tenant ∧ externalId = some k.2 ∧
          cached.response.session = key.session := by
  unfold freeExternalId
  cases externalId with
  | none => exact .inl rfl
  | some externalId =>
    dsimp only
    split
    · rename_i hown
      dsimp only
      by_cases hk : k = (key.tenant, externalId)
      · subst hk
        obtain ⟨cached, hcached, hsession⟩ := (any_eq_true _ _).mp hown
        exact .inr ⟨update_self _ _ _, cached, hcached, rfl, rfl, by simpa using hsession⟩
      · exact .inl (update_of_ne hk _ _)
    · exact .inl rfl

theorem currentDescriptor_foldl_remove (ds : RelayDescriptors) (taken : List RelayId) (relay : RelayId) (key' : SessionKey) :
    (taken.foldl (fun ds relay => ds.remove relay key) ds).currentDescriptor relay key' =
      if relay ∈ taken ∧ key' = key then none else ds.currentDescriptor relay key' := by
  induction taken generalizing ds with
  | nil => simp
  | cons target taken ih =>
    rw [List.foldl_cons, ih, RelayDescriptors.currentDescriptor_remove]
    by_cases hkey : key' = key
    · by_cases hmem : relay ∈ taken
      · simp [hkey, hmem]
      · simp [hkey, hmem]
    · simp [hkey]

end Retire

end SessionSetup

end RallyPoint.Coordinator
