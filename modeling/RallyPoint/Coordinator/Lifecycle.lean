import RallyPoint.Coordinator.Session.Create
import RallyPoint.Coordinator.Session.Enrollment

/-!
# `Coordinator.Lifecycle` — what the coordinator learns of a session's life

The model of `coordinator/src/lifecycle`: the relays that serve a session as the lifecycle has cached
them, the departures relays reported, which relays reported the session closed, and the epochs of the
control connections.

A function of the lifecycle alone is what its source does under the session lock. One that also takes the
setup is what its source does under the assignment lock. Webhooks and their queues, the accounting behind
the reap timers, evidence and load-state reads are not part of the state; where a reap is decided by
them, the decision is an argument.
-/

namespace RallyPoint.Coordinator

open Lib Proto Function

/-- What is kept of a departure. -/
structure DepartureSeed where
  kind : DepartureKind
  finalTurnCount : Option U64
  finalized : Bool

/-- A departure as a relay reports it. -/
structure DepartureNotice where
  slot : SlotId
  kind : DepartureKind
  finalTurnCount : Option U64
  finalized : Bool

/-- One session's lifecycle state. -/
structure SessionState where
  servingRelays : List RelayId
  /-- The session was registered by this process. -/
  createdHere : Bool
  /-- The relays that serve the session remember its whole life. -/
  attestable : Bool
  departures : OrdMap SlotId DepartureSeed
  closedRelays : RelayId → Option Nat
  sessionClosedEnqueued : Bool
  started : Bool

structure RelayEpoch where
  generation : Nat
  connected : Bool

structure Lifecycle where
  sessions : SessionKey → Option SessionState
  relayEpochs : RelayId → Option RelayEpoch

namespace SessionState

variable (st : SessionState)

/-- `new_state`. -/
def new (servingRelays : List RelayId) : SessionState where
  servingRelays
  createdHere := false
  attestable := false
  departures := .empty
  closedRelays := fun _ => none
  sessionClosedEnqueued := false
  started := false

def allRelaysClosed : Bool :=
  !st.servingRelays.isEmpty && st.servingRelays.all fun relay => (st.closedRelays relay).isSome

/-- What `register_session` makes of the state. -/
def registered (servingRelays : List RelayId) : SessionState :=
  { st with servingRelays, createdHere := true, closedRelays := fun _ => none, attestable := true }

/-- What `on_rehome` makes of the state. -/
def rehomed (dead rNew : RelayId) : SessionState :=
  if dead = rNew then { st with closedRelays := update st.closedRelays dead none, attestable := false }
  else if dead ∉ st.servingRelays then st
  else
    { st with
      closedRelays := update (update st.closedRelays dead none) rNew none
      attestable := false
      servingRelays := if rNew ∈ st.servingRelays then st.servingRelays.erase dead else st.servingRelays.replace dead rNew }

/-- What `on_departure` makes of the state. The first record for a slot stands. -/
def departed (notice : DepartureNotice) : SessionState :=
  -- a drop's count is kept only with the proof that its home finalized it
  let finalized : Bool := notice.kind = .dropped && notice.finalized
  let finalTurnCount := if notice.kind = .dropped ∧ !finalized then none else notice.finalTurnCount
  { st with
    departures :=
      if (st.departures.get? notice.slot).isSome then st.departures
      else st.departures.insert notice.slot ⟨notice.kind, finalTurnCount, finalized⟩
    started := true }

/-- The close a relay reported no longer stands. -/
def reopened (relay : RelayId) : SessionState := { st with closedRelays := update st.closedRelays relay none }

end SessionState

namespace Lifecycle

variable (lc : Lifecycle) (key : SessionKey) (relay : RelayId) (generation : Nat)

def new : Lifecycle := ⟨fun _ => none, fun _ => none⟩

/-- The state of a session, made on the fly if there is none. -/
def stateFor : SessionState := (lc.sessions key).getD (.new [])

def put (st : SessionState) : Lifecycle :=
  { lc with sessions := update lc.sessions key (some st) }

/-- Drop the state of a session. -/
def drop : Lifecycle := { lc with sessions := update lc.sessions key none }

theorem sessions_put (st : SessionState) (key' : SessionKey) :
    (lc.put key st).sessions key' = if key' = key then some st else lc.sessions key' :=
  update_apply _ _ _ _

theorem sessions_drop (key key' : SessionKey) :
    (lc.drop key).sessions key' = if key' = key then none else lc.sessions key' :=
  update_apply _ _ _ _

/-! ## Sessions -/

def registerSession (servingRelays : List RelayId) : Lifecycle :=
  lc.put key ((lc.stateFor key).registered servingRelays)

def onRehome (dead rNew : RelayId) : Lifecycle :=
  { lc with sessions := update lc.sessions key ((lc.sessions key).map (·.rehomed dead rNew)) }

theorem sessions_onRehome (dead rNew : RelayId) (key' : SessionKey) :
    (lc.onRehome key dead rNew).sessions key' =
      if key' = key then (lc.sessions key).map (·.rehomed dead rNew) else lc.sessions key' :=
  update_apply _ _ _ _

/-- `on_departure`, up to where it gives up the session lock. -/
def recordDeparture (notice : DepartureNotice) : Lifecycle :=
  lc.put key ((lc.stateFor key).departed notice)

def departedSlots : List DepartedSlot :=
  ((lc.sessions key).map fun st => st.departures.entries.map fun e =>
    (⟨e.1, e.2.kind, e.2.finalTurnCount, e.2.finalized⟩ : DepartedSlot)).getD []

/-- `on_result` and `on_slot_connected`: a client was there. -/
def onResult : Lifecycle := lc.put key { lc.stateFor key with started := true }

def ensureOrphanTracked : Lifecycle := lc.put key (lc.stateFor key)

/-- `fire_webhook_reap`, up to where it gives up the session lock: whether the state is dropped. -/
def fireWebhookReap : Lifecycle × Bool :=
  match lc.sessions key with
  | none => (lc, false)
  | some st => if st.servingRelays ≠ [] then (lc, false) else (lc.drop key, true)

/-! ## Relays -/

/-- The control connection of this generation is the relay's current one. -/
def isCurrent : Bool :=
  (lc.relayEpochs relay).any fun epoch => epoch.connected && epoch.generation = generation

def applyRelayEnrolled : Lifecycle :=
  if (lc.relayEpochs relay).any fun epoch => generation ≤ epoch.generation then lc
  else
    { sessions := fun key => (lc.sessions key).map (·.reopened relay)
      relayEpochs := update lc.relayEpochs relay (some ⟨generation, true⟩) }

def applyRelayDisconnected : Lifecycle :=
  match lc.relayEpochs relay with
  | none => lc
  | some epoch =>
    if epoch.generation ≠ generation ∨ !epoch.connected then lc
    else { lc with relayEpochs := update lc.relayEpochs relay none }

def onRelayLineageBreak : Lifecycle :=
  { lc with
    sessions := fun key => (lc.sessions key).map fun st =>
      if relay ∈ st.servingRelays then { st with attestable := false } else st }

/-- `on_relay_heartbeat`, for the sessions it finds occupied. `assigned` is what is staged for the relay. -/
def onRelayHeartbeat (assigned : List SessionKey) (relay : RelayId) (generation : Nat)
    (occupied : List SessionKey) : Lifecycle :=
  if !lc.isCurrent relay generation then lc
  else
    { lc with
      sessions := fun key =>
        if key ∈ assigned ∧ key ∈ occupied then
          (lc.sessions key).map fun st => if relay ∈ st.servingRelays then { st.reopened relay with started := true } else st
        else lc.sessions key }

end Lifecycle

/-! ## Calls that act on the setup too -/

namespace SessionSetup

variable (sha256 : Sha256) (s : SessionSetup) (lc : Lifecycle) (key : SessionKey)

/-- `close_and_retire`, of a session whose state is dropped. -/
def closeAndRetire : SessionSetup × Lifecycle := (s.retireSession key, lc.drop key)

def finishIfAllClosed : SessionSetup × Lifecycle :=
  match lc.sessions key with
  | none => (s, lc)
  | some st => if !st.allRelaysClosed || st.sessionClosedEnqueued then (s, lc) else s.closeAndRetire lc key

def onSessionClosed (relay : RelayId) (generation : Nat) : SessionSetup × Lifecycle :=
  if !lc.isCurrent relay generation then (s, lc)
  else if relay ∉ s.servingRelays key then (s, lc)
  else match lc.sessions key with
    | none => (s, lc)
    | some st =>
      if relay ∉ st.servingRelays then (s, lc)
      else s.finishIfAllClosed (lc.put key { st with closedRelays := update st.closedRelays relay (some generation) }) key

def fireNeverStarted : SessionSetup × Lifecycle :=
  match lc.sessions key with
  | none => (s, lc)
  | some st => if st.started then (s, lc) else s.closeAndRetire lc key

/-- `fire_empty_session`. Whether the heartbeats still prove the session empty is an argument. -/
def fireEmptySession (confirmed : Bool) : SessionSetup × Lifecycle :=
  match lc.sessions key with
  | none => (s, lc)
  | some st => if !st.started || st.allRelaysClosed || !confirmed then (s, lc) else s.closeAndRetire lc key

/-- A create, with the registration of the session at its commit. -/
def createSession (request : SessionRequest) (expiresAt : U64) (policy : CreatePolicy) :
    SessionSetup × Lifecycle × CreateResult :=
  s.createBody sha256 lc request expiresAt policy fun session relays lc =>
    lc.registerSession ⟨request.tenant, session⟩ relays

/-- A re-home as the API and the evidence eviction ask for it: the lifecycle follows at the commit, then
    the departures are read. -/
def rehomeSession (dead : RelayId) : SessionSetup × Lifecycle × RehomeOutcome :=
  s.rehomeWithAssignmentCommit sha256 lc key dead (·.departedSlots key) fun rNew lc => lc.onRehome key dead rNew

/-- The end of `evict_evidence_session`, without a replacement: the session is retired if the relay still
    lacks what it requires. -/
def retireUnevidenced (relay : RelayId) : SessionSetup × Lifecycle :=
  if relay ∉ s.servingRelays key ∨ ¬ (s.sessionRefs key).any (fun refs => !refs.requiredEvidenceSlots.isEmpty) ∨
      (s.registry.entry relay).any (·.evidenceCapable) then (s, lc)
  else s.closeAndRetire lc key

/-- The enrollment under the assignment lock, with the sessions the relay can no longer vouch for. -/
def enrollRelay (hello : RelayHello) : SessionSetup × Lifecycle × Except EnrollConflict Enrolled :=
  match s.enrollLocked sha256 hello with
  | (s, .error conflict) => (s, lc, .error conflict)
  | (s, .ok enrolled) =>
    let lc := lc.applyRelayEnrolled hello.relayId enrolled.generation
    (s, if enrolled.lineage = .broken then lc.onRelayLineageBreak hello.relayId else lc, .ok enrolled)

/-- `disconnect_relay_epoch`, of the entry of a control connection that ends. -/
def disconnectRelay (relay : RelayId) (generation : Nat) : SessionSetup × Lifecycle × Bool :=
  match s.registry.removeIfCurrent relay generation with
  | (_, false) => (s, lc, false)
  | (registry, true) => ({ s with registry }, lc.applyRelayDisconnected relay generation, true)

end SessionSetup

end RallyPoint.Coordinator
