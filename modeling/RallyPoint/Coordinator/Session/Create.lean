import RallyPoint.Coordinator.Session.Setup

/-!
# `Coordinator.Session.Create` — standing up a session

The model of `create_body` (`coordinator/src/session/create.rs`) and of `mint_token`
(`coordinator/src/tenant/mod.rs`): the replay of a create that was answered before, the checks of the
request, the ceiling, the hold for a cold region, the placement, and the commit that writes the maps and
mints a token for each player.

`createBody` runs under the assignment lock, so a call is one transition. The hook that the caller runs
at the commit acts on a state of the caller's, which is threaded through. Warm demand is written here and
read elsewhere; it is not part of the state.

`createBody_cases` says everything a create can do.
-/

namespace RallyPoint.Coordinator

open Lib Proto Function

/-! ## Tokens -/

inductive KeyError where
  | tenantNotFound (tenant : TenantId)
  | token (error : TokenError)

def mintToken (tenants : TenantStore) (tenant : TenantId) (session : SessionId) (slot : SlotId)
    (clientPubkey : ClientPublicKey) (expiresAt : U64) : Except KeyError SignedToken :=
  match tenants tenant with
  | none => .error (.tenantNotFound tenant)
  | some key =>
    let token : SignedToken := {
      kid := key.kid
      claims := ⟨tenant, Fin.ofNat (2 ^ 64) session, slot, expiresAt, clientPubkey⟩
      signature := .replicate signatureLen 0 }
    match token.signedMessage [] with
    | .error e => .error (.token e)
    | .ok message => .ok { token with signature := key.sign message }

/-- One player's token, encoded. Any failure is reported as an unknown tenant. -/
def mintPlayer (tenants : TenantStore) (tenant : TenantId) (session : SessionId) (expiresAt : U64) (player : PlayerHandoff) :
    Except SessionSetupError PlayerToken :=
  match mintToken tenants tenant session player.slot player.clientPubkey expiresAt with
  | .error _ => .error (.tenantNotFound tenant)
  | .ok token =>
    match token.encode with
    | .error _ => .error (.tenantNotFound tenant)
    | .ok encoded => .ok ⟨player.slot, encoded⟩

/-- The loop that mints a token for each player, up to the first failure. -/
def mintTokens (tenants : TenantStore) (tenant : TenantId) (session : SessionId) (expiresAt : U64) :
    List PlayerHandoff → Except SessionSetupError (List PlayerToken)
  | [] => .ok []
  | player :: players => do
      let token ← mintPlayer tenants tenant session expiresAt player
      let tokens ← mintTokens tenants tenant session expiresAt players
      return token :: tokens

/-! ## Validation -/

def maxSlot : Nat := 11

def maxExternalStringLen : Nat := 256

def maxLobbyPolicyEntries : Nat := 1024

def maxLobbyPolicyPayloadBytes : Nat := 256 * 1024

/-- The loop over the roster, with the slots seen so far. -/
def validatePlayers (seen : List SlotId) : List PlayerHandoff → Except SessionSetupError (List SlotId)
  | [] => .ok seen
  | player :: players =>
    if maxSlot < (player.slot : Nat) then .error (.slotOutOfRange player.slot)
    else if player.slot ∈ seen then .error (.duplicateSlot player.slot)
    else if player.externalRef.any fun ref => maxExternalStringLen < ref.utf8ByteSize then
      .error (.externalRefTooLong player.slot)
    else validatePlayers (player.slot :: seen) players

/-- The loop over the allowed commands, with the payload bytes so far. -/
def validateAllowed (roster : List SlotId) (payloadBytes : Nat) : List AllowedLobbyCommand → Except SessionSetupError Unit
  | [] => .ok ()
  | entry :: allowed =>
    if entry.slot ∉ roster then .error (.lobbyPolicySlotNotInRoster entry.slot)
    else match checkedAdd u64Max payloadBytes entry.payload.length with
      | none => .error .lobbyPolicyPayloadsTooLarge
      | some payloadBytes =>
        if maxLobbyPolicyPayloadBytes < payloadBytes then .error .lobbyPolicyPayloadsTooLarge
        else validateAllowed roster payloadBytes allowed

def validateLobbyPolicy (policy : LobbyPolicy) (roster : List SlotId) : Except SessionSetupError Unit :=
  if maxLobbyPolicyEntries < policy.allowed.length then .error .lobbyPolicyTooManyEntries
  else validateAllowed roster 0 policy.allowed

def validateRequest (request : SessionRequest) : Except SessionSetupError Unit :=
  if request.players = [] then .error .noPlayers
  else if maxEvidenceKeys < request.evidenceKeys.length then .error .invalidEvidenceKeys
  else if ¬ (request.evidenceKeys.map (·.keyId)).Nodup ∨
      request.evidenceKeys = [] ∧ (request.periodicEvidence || request.players.any (·.requireEvidence)) then
    .error .invalidEvidenceKeys
  else do
    let roster ← validatePlayers [] request.players
    if request.externalId.any fun id => maxExternalStringLen < id.utf8ByteSize then .error .externalIdTooLong
    else match request.lobbyPolicy with
      | none => .ok ()
      | some policy => validateLobbyPolicy policy roster

/-! ## The create -/

structure CreatedSession where
  response : SessionResponse
  replayed : Bool
deriving DecidableEq

inductive CreateOutcome where
  | created (created : CreatedSession)
  | provisioning (regions : List RegionId)
deriving DecidableEq

/-- Whether a create may wait for a cold region, and the time. -/
inductive CreatePolicy where
  | immediate
  | holdUntilReady (now : Nat)

abbrev CreateResult := Except SessionSetupError CreateOutcome

namespace SessionSetup

variable (s : SessionSetup) (request : SessionRequest)

/-- The answer of a create whose `external_id` is bound to a live session. -/
def replay : Option CreateResult := do
  let externalId ← request.externalId
  let cached ← s.createIdempotency (request.tenant, externalId)
  if s.servingRelays ⟨request.tenant, cached.response.session⟩ = [] then none
  else if cached.fingerprint = .fromRequest request then some (.ok (.created ⟨cached.response, true⟩))
  else some (.error .idempotentCreateMismatch)

/-- The consult of the hold: the regions a create waits for, if it is held. -/
def holdUntilReady (policy : CreatePolicy) : SessionSetup × Option (List RegionId) :=
  match policy, s.createHold, request.externalId with
  | .holdUntilReady now, some createHold, some externalId =>
    let unlit := unlitRequestedRegions s.registry request
    if unlit = [] then (s, none)
    else
      let (pendingCreates, held) := holdPendingCreate s.pendingCreates (request.tenant, externalId) now createHold
      ({ s with pendingCreates }, if held then some unlit else none)
  | _, _, _ => (s, none)

/-- What a create records of a request and its placement. -/
def refsFor (request : SessionRequest) (placement : Placement) : SessionRefs where
  periodicEvidence := request.periodicEvidence
  evidenceKeys := request.evidenceKeys
  requiredEvidenceSlots := (request.players.filter (·.requireEvidence)).map (·.slot)
  evidenceAssignments := .ofList (request.players.map fun p => (p.slot, 1))
  externalId := request.externalId
  finalizedDrops := placement.finalizedDrops
  capableCohort := placement.capableCohort
  rollback := placement.rollback
  slots := request.players.filterMap fun p => p.externalRef.map fun ref => (p.slot, ref)
  observers := (request.players.filter (·.observer)).map (·.slot)
  expected := request.players.map (·.slot)
  homes := placement.homes
  relayCerts := placement.relayCerts
  relayRegions := placement.relayRegions
  latencyEstimateMs := request.latencyEstimateMs
  lobbyPolicy := request.lobbyPolicy
  lobbySettled := false

/-- The next id is taken, and membership and refs are recorded under it. -/
def assign (placement : Placement) : SessionSetup :=
  let key : SessionKey := ⟨request.tenant, s.nextSession⟩
  { s with
    nextSession := s.nextSession + 1
    sessionRelays := s.sessionRelays.insert key placement.relayIds
    sessionRefs := update s.sessionRefs key (some (refsFor request placement)) }

/-- The commit before the tokens: the session is assigned, and its descriptors are staged. -/
def commitCreate (placement : Placement) : SessionSetup :=
  (s.assign request placement).stage ⟨request.tenant, s.nextSession⟩ false [] placement.relayIds

/-- The end of the commit: the hold is over, and a repeated create is answered from here on. -/
def recordCreate (response : SessionResponse) : SessionSetup :=
  match request.externalId with
  | none => s
  | some externalId =>
    { s with
      pendingCreates := update s.pendingCreates (request.tenant, externalId) none
      createIdempotency := update s.createIdempotency (request.tenant, externalId) (some ⟨.fromRequest request, response⟩) }

/-- The commit is the assignment, the outboxes apart. -/
theorem commitCreate_eq (request : SessionRequest) (placement : Placement) :
    s.commitCreate request placement =
      { s.assign request placement with descriptors := (s.commitCreate request placement).descriptors } :=
  stage_eq _ _ _ _ _

/-- The record of a create, and everything else as it was. -/
theorem recordCreate_eq (request : SessionRequest) (response : SessionResponse) :
    s.recordCreate request response =
      { s with
        pendingCreates := (s.recordCreate request response).pendingCreates
        createIdempotency := (s.recordCreate request response).createIdempotency } := by
  unfold recordCreate
  cases request.externalId <;> rfl

variable (sha256 : Sha256) {σ : Type}

/-- `create_body` from the placement on. -/
def placeAndCommit (s : SessionSetup) (view : σ) (request : SessionRequest) (expiresAt : U64)
    (onCommit : SessionId → List RelayId → σ → σ) : SessionSetup × σ × CreateResult :=
  match placeByRegion sha256 s.registry s.pairRtts request s.nextSession s.finalizeFeature with
  | .error e => (s, view, .error e)
  | .ok placement =>
    match s.tenants request.tenant with
    | none => (s, view, .error (.tenantNotFound request.tenant))
    | some tenant =>
      let committed := s.commitCreate request placement
      match mintTokens s.tenants request.tenant s.nextSession expiresAt request.players with
      | .error e => (committed, view, .error e)
      | .ok tokens =>
        let response : SessionResponse := {
          session := s.nextSession
          homeRelay := placement.home
          slotHomes := placement.slotHomes
          tokens
          bounds := tenant.bounds
          relayRegions := relayRegionLabels placement.relayRegions
          rollback := placement.rollback }
        (committed.recordCreate request response, onCommit s.nextSession placement.relayIds view,
          .ok (.created ⟨response, false⟩))

def createBody (s : SessionSetup) (view : σ) (request : SessionRequest) (expiresAt : U64) (policy : CreatePolicy)
    (onCommit : SessionId → List RelayId → σ → σ) : SessionSetup × σ × CreateResult :=
  match s.replay request with
  | some answer => (s, view, answer)
  | none =>
    match validateRequest request with
    | .error e => (s, view, .error e)
    | .ok () =>
      if s.sessionCeiling.any (· ≤ s.liveSessionCount) then (s, view, .error .sessionCeilingReached)
      else match s.holdUntilReady request policy with
        | (s, some regions) => (s, view, .ok (.provisioning regions))
        | (s, none) => s.placeAndCommit sha256 view request expiresAt onCommit

/-- The create fails on its way to the commit. -/
def Refuses (s : SessionSetup) (request : SessionRequest) : Prop :=
  validateRequest request ≠ .ok () ∨ s.sessionCeiling.any (· ≤ s.liveSessionCount) = true ∨
    (∀ placement, placeByRegion sha256 s.registry s.pairRtts request s.nextSession s.finalizeFeature ≠ .ok placement) ∨
    s.tenants request.tenant = none

/-- What a create can do. -/
inductive CreateStep (s : SessionSetup) (view : σ) (request : SessionRequest) (expiresAt : U64)
    (onCommit : SessionId → List RelayId → σ → σ) : SessionSetup × σ × CreateResult → Prop where
  /-- The answer of the create that came first, or the refusal of another one under its name. -/
  | replayed (answer : CreateResult) (hreplay : s.replay request = some answer) :
      CreateStep s view request expiresAt onCommit (s, view, answer)
  /-- A refusal. The hold may have ended. -/
  | refused (pendingCreates : PendingCreates) (e : SessionSetupError) (hreplay : s.replay request = none)
      (hrefuses : Refuses sha256 s request) :
      CreateStep s view request expiresAt onCommit ({ s with pendingCreates }, view, .error e)
  | held (pendingCreates : PendingCreates) (regions : List RegionId) (hreplay : s.replay request = none) :
      CreateStep s view request expiresAt onCommit ({ s with pendingCreates }, view, .ok (.provisioning regions))
  /-- The maps are written, but a token could not be minted. -/
  | unminted (pendingCreates : PendingCreates) (placement : Placement) (tenant : TenantSigningKey) (e : SessionSetupError)
      (hreplay : s.replay request = none) (hceiling : s.sessionCeiling.any (· ≤ s.liveSessionCount) = false)
      (hplace : placeByRegion sha256 s.registry s.pairRtts request s.nextSession s.finalizeFeature = .ok placement)
      (htenant : s.tenants request.tenant = some tenant)
      (hmint : mintTokens s.tenants request.tenant s.nextSession expiresAt request.players = .error e)
      (hvalid : validateRequest request = .ok ()) :
      CreateStep s view request expiresAt onCommit ({ s with pendingCreates }.commitCreate request placement, view, .error e)
  | created (pendingCreates : PendingCreates) (placement : Placement) (tenant : TenantSigningKey)
      (response : SessionResponse)
      (hreplay : s.replay request = none) (hceiling : s.sessionCeiling.any (· ≤ s.liveSessionCount) = false)
      (hplace : placeByRegion sha256 s.registry s.pairRtts request s.nextSession s.finalizeFeature = .ok placement)
      (htenant : s.tenants request.tenant = some tenant) (hsession : response.session = s.nextSession)
      (hvalid : validateRequest request = .ok ()) :
      CreateStep s view request expiresAt onCommit
        (({ s with pendingCreates }.commitCreate request placement).recordCreate request response,
          onCommit s.nextSession placement.relayIds view, .ok (.created ⟨response, false⟩))

theorem holdUntilReady_eq (request : SessionRequest) (policy : CreatePolicy) :
    (s.holdUntilReady request policy).1 =
      { s with pendingCreates := (s.holdUntilReady request policy).1.pendingCreates } := by
  unfold holdUntilReady
  split
  · dsimp only
    split <;> rfl
  · rfl

/-- **Everything a create can do.** -/
theorem createBody_cases (view : σ) (request : SessionRequest) (expiresAt : U64) (policy : CreatePolicy)
    (onCommit : SessionId → List RelayId → σ → σ) :
    CreateStep sha256 s view request expiresAt onCommit (s.createBody sha256 view request expiresAt policy onCommit) := by
  unfold createBody
  cases hreplay : s.replay request with
  | some answer => exact .replayed answer hreplay
  | none =>
    dsimp only
    cases hvalid : validateRequest request with
    | error e => exact .refused s.pendingCreates e hreplay (.inl (by simp [hvalid]))
    | ok u =>
      dsimp only
      by_cases hceiling : s.sessionCeiling.any (· ≤ s.liveSessionCount) = true
      · rw [if_pos hceiling]
        exact .refused s.pendingCreates .sessionCeilingReached hreplay (.inr (.inl hceiling))
      rw [if_neg hceiling]
      have hceiling : s.sessionCeiling.any (· ≤ s.liveSessionCount) = false := by simpa using hceiling
      -- the hold leaves nothing behind but its own anchor
      have hhold := s.holdUntilReady_eq request policy
      rcases hres : s.holdUntilReady request policy with ⟨held, regions⟩
      rw [hres] at hhold
      dsimp only at hhold
      rw [hhold]
      cases regions with
      | some regions => exact .held held.pendingCreates regions hreplay
      | none =>
        dsimp only
        unfold placeAndCommit
        dsimp only
        cases hplace : placeByRegion sha256 s.registry s.pairRtts request s.nextSession s.finalizeFeature with
        | error e => exact .refused held.pendingCreates e hreplay (.inr (.inr (.inl (by simp [hplace]))))
        | ok placement =>
          dsimp only
          cases htenant : s.tenants request.tenant with
          | none => exact .refused held.pendingCreates _ hreplay (.inr (.inr (.inr htenant)))
          | some tenant =>
            dsimp only
            cases hmint : mintTokens s.tenants request.tenant s.nextSession expiresAt request.players with
            | error e => exact .unminted held.pendingCreates placement tenant e hreplay hceiling hplace htenant hmint hvalid
            | ok tokens => exact .created held.pendingCreates placement tenant _ hreplay hceiling hplace htenant rfl hvalid

end SessionSetup

end RallyPoint.Coordinator
