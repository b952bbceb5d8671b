import RallyPoint.Lib.Tasks
import RallyPoint.Coordinator.Lifecycle
import RallyPoint.Coordinator.Provision

/-!
# `Coordinator.Tasks` — the tasks of a coordinator, and how they interleave

The setup, the lifecycle, the ledger and the reconcile loop are shared by tenants' creates and re-homes,
control connections, timers that reap, and the loop that drains.

A task is cut where it gives up the assignment lock, or reads or writes under another lock while it does
not hold that one. A piece that holds the assignment lock reads or writes the lifecycle at one place, so
a departure recorded meanwhile is one recorded before the piece or after it.

* An enrollment authorizes against the ledger, installs the relay under the lock, and then moves each
  session the relay can no longer serve: those that need evidence first, then those on the other side of
  a capability, whose departures it reads before it asks for the lock.
* A departure is recorded under the session lock; the staged descriptors follow under the assignment
  lock.
* The reap of a state without serving relays drops it under the session lock, and retires the session
  without any.
-/

namespace RallyPoint.Coordinator

open Lib Proto

structure CoordinatorState (δ : Type) where
  setup : SessionSetup
  lifecycle : Lifecycle
  ledger : Option (RelayLedger δ)
  provision : ProvisionLoop

/-- Why a control connection is closed while it enrolls. -/
inductive ControlClose where
  | tryAgainLater
  | duplicateRelayId
  | enrollUnauthorized

namespace ControlClose

/-- How a refusal of the ledger is answered: which one it was stays on the coordinator's side. -/
def ofRefusal : EnrollRefusal → ControlClose
  | .addrsPending => tryAgainLater
  | _ => enrollUnauthorized

end ControlClose

/-- Where a task stands. -/
inductive CoordinatorTask where
  | create (request : SessionRequest) (expiresAt : U64) (policy : CreatePolicy)
  /-- A re-home that a tenant asks for. -/
  | rehome (key : SessionKey) (dead : RelayId)
  /-- A control connection that has proved its identity. -/
  | authorize (hello : RelayHello) (faults : Faults) (now : U64) (peerIp : Option IpAddr) (readFails : Bool)
  | enroll (hello : RelayHello) (readFails : Bool)
  /-- Moving the sessions `keys` off a relay that gives no evidence; the `mismatched` ones come after. -/
  | evictEvidence (relay : RelayId) (generation : Nat) (keys mismatched : List SessionKey)
  /-- No replacement was found for the session. -/
  | retireUnevidenced (relay : RelayId) (generation : Nat) (key : SessionKey) (keys mismatched : List SessionKey)
  /-- Moving the sessions `keys` off a relay whose capabilities they do not fit. -/
  | evict (relay : RelayId) (generation : Nat) (keys : List SessionKey)
  /-- The departures of the session are read. -/
  | rehomeEvicting (relay : RelayId) (generation : Nat) (key : SessionKey)
      (departedSlots : List DepartedSlot) (keys : List SessionKey)
  | onDeparture (key : SessionKey) (notice : DepartureNotice)
  /-- The departure is recorded. -/
  | refreshResumed (key : SessionKey)
  | onSessionClosed (key : SessionKey) (relay : RelayId) (generation : Nat)
  | onHeartbeat (relay : RelayId) (generation : Nat) (occupied : List SessionKey)
  | onResult (key : SessionKey)
  | ensureOrphanTracked (key : SessionKey)
  | fireNeverStarted (key : SessionKey)
  | fireEmptySession (key : SessionKey) (confirmed : Bool)
  | fireWebhookReap (key : SessionKey)
  /-- The state is dropped. -/
  | retireReaped (key : SessionKey)
  | disconnect (relay : RelayId) (generation : Nat)
  | applyDrainMark (relay : RelayId) (generation : Nat)
  | settleLobby (key : SessionKey) (expected : List RelayId) (stillCurrent : Bool)
  | measure (pairRtts : PairRtts)
  /-- A call of the provisioner on the ledger. -/
  | ledger (op : LedgerOp)
  /-- A sweep retires a relay that never came up, or is gone. -/
  | retireRelay (relay : RelayId) (fails : Bool) (now : U64)
  /-- The reconcile loop goes on. -/
  | reconcile (input : LoopInput)

/-- What a task answers. -/
inductive TaskResult where
  | created (result : CreateResult)
  | rehomed (outcome : RehomeOutcome)
  | refused (close : ControlClose)
  | enrolled (generation : Nat)
  | applied (applied : Bool)
  /-- The relay that the loop drained. -/
  | drained (relay : Option RelayId)
  | done

namespace CoordinatorState

variable {δ : Type}

section Enroll

variable [DecidableEq δ] (sha256 : Sha256) (tokenHash : String → δ)

/-- The ledger's part of an enrollment. Without a ledger the relay is taken at its word. -/
def authorize (s : CoordinatorState δ) (hello : RelayHello) (faults : Faults) (now : U64)
    (peerIp : Option IpAddr) (readFails : Bool) :
    CoordinatorState δ × Progress CoordinatorTask TaskResult :=
  match s.ledger with
  | none => (s, .going (.enroll hello readFails))
  | some l =>
    match l.authorizeEnrollAt tokenHash faults now hello.relayId (sha256 hello.certDer) hello.enrollToken peerIp with
    | (l, .ok authorized) =>
      -- a provisioned relay is advertised at the addresses of its task only
      let hello := { hello with relayAddr := authorized.addrs.headD hello.relayAddr, relayAddrs := authorized.addrs }
      ({ s with ledger := some l }, .going (.enroll hello readFails))
    | (l, .error refusal) => ({ s with ledger := some l }, .done (.refused (.ofRefusal refusal)))

/-- The enrollment under the assignment lock. -/
def enroll (s : CoordinatorState δ) (hello : RelayHello) (readFails : Bool) :
    CoordinatorState δ × Progress CoordinatorTask TaskResult :=
  -- the id may have been retired since it was authorized
  if s.ledger.any fun l => readFails || l.isRetired hello.relayId then (s, .done (.refused .enrollUnauthorized))
  else match s.setup.enrollRelay sha256 s.lifecycle hello with
    | (setup, lifecycle, .error _) => ({ s with setup, lifecycle }, .done (.refused .duplicateRelayId))
    | (setup, lifecycle, .ok enrolled) =>
      ({ s with setup, lifecycle },
        .going (.evictEvidence hello.relayId enrolled.generation enrolled.evidenceEvict enrolled.evict))

end Enroll

/-- `retire_relay`, as the sweeps call it. -/
def retireRelay (s : CoordinatorState δ) (relay : RelayId) (fails : Bool) (now : U64) : CoordinatorState δ :=
  match s.ledger with
  | none => s
  | some l =>
    let (setup, l, _) := s.setup.tombstoneLocked l fails now relay
    { s with setup, ledger := some l }

/-- A step of the reconcile loop, with the relay it drained. There is no loop without a ledger. -/
def reconcile (s : CoordinatorState δ) (input : LoopInput) : CoordinatorState δ × Option RelayId :=
  match s.ledger with
  | none => (s, none)
  | some l =>
    let (provision, setup, l, drained) := s.provision.step input s.setup l
    ({ s with setup, ledger := some l, provision }, drained)

end CoordinatorState

namespace CoordinatorTask

/-- Whether a task begins there. -/
def isEntry : CoordinatorTask → Bool
  | enroll .. | evictEvidence .. | retireUnevidenced .. | evict .. | rehomeEvicting ..
  | refreshResumed _ | retireReaped _ => false
  | _ => true

variable {δ : Type} [DecidableEq δ] (sha256 : Sha256) (tokenHash : String → δ)

/-- One piece of a task. -/
def next : Program (CoordinatorState δ) CoordinatorTask TaskResult
  | create request expiresAt policy, s =>
    let (setup, lifecycle, result) := s.setup.createSession sha256 s.lifecycle request expiresAt policy
    ({ s with setup, lifecycle }, .done (.created result))
  | rehome key dead, s =>
    let (setup, lifecycle, outcome) := s.setup.rehomeSession sha256 s.lifecycle key dead
    ({ s with setup, lifecycle }, .done (.rehomed outcome))
  | authorize hello faults now peerIp readFails, s => s.authorize sha256 tokenHash hello faults now peerIp readFails
  | enroll hello readFails, s => s.enroll sha256 hello readFails
  | evictEvidence relay generation [] mismatched, s => (s, .going (.evict relay generation mismatched))
  | evictEvidence relay generation (key :: keys) mismatched, s =>
    let (setup, lifecycle, outcome) := s.setup.rehomeSession sha256 s.lifecycle key relay
    ({ s with setup, lifecycle },
      .going (if outcome = .unavailable then .retireUnevidenced relay generation key keys mismatched
        else .evictEvidence relay generation keys mismatched))
  | retireUnevidenced relay generation key keys mismatched, s =>
    let (setup, lifecycle) := s.setup.retireUnevidenced s.lifecycle key relay
    ({ s with setup, lifecycle }, .going (.evictEvidence relay generation keys mismatched))
  | evict _ generation [], s => (s, .done (.enrolled generation))
  | evict relay generation (key :: keys), s =>
    (s, .going (.rehomeEvicting relay generation key (s.lifecycle.departedSlots key) keys))
  | rehomeEvicting relay generation key departedSlots keys, s =>
    let (setup, _) := s.setup.rehomeEvicting sha256 key relay departedSlots
    ({ s with setup }, .going (.evict relay generation keys))
  | onDeparture key notice, s =>
    ({ s with lifecycle := s.lifecycle.recordDeparture key notice }, .going (.refreshResumed key))
  | refreshResumed key, s =>
    ({ s with setup := s.setup.refreshResumedDescriptors key (s.lifecycle.departedSlots key) }, .done .done)
  | onSessionClosed key relay generation, s =>
    let (setup, lifecycle) := s.setup.onSessionClosed s.lifecycle key relay generation
    ({ s with setup, lifecycle }, .done .done)
  | onHeartbeat relay generation occupied, s =>
    let assigned := (s.setup.descriptors.currentFor relay).map (·.key)
    ({ s with lifecycle := s.lifecycle.onRelayHeartbeat assigned relay generation occupied }, .done .done)
  | onResult key, s => ({ s with lifecycle := s.lifecycle.onResult key }, .done .done)
  | ensureOrphanTracked key, s => ({ s with lifecycle := s.lifecycle.ensureOrphanTracked key }, .done .done)
  | fireNeverStarted key, s =>
    let (setup, lifecycle) := s.setup.fireNeverStarted s.lifecycle key
    ({ s with setup, lifecycle }, .done .done)
  | fireEmptySession key confirmed, s =>
    let (setup, lifecycle) := s.setup.fireEmptySession s.lifecycle key confirmed
    ({ s with setup, lifecycle }, .done .done)
  | fireWebhookReap key, s =>
    let (lifecycle, dropped) := s.lifecycle.fireWebhookReap key
    ({ s with lifecycle }, if dropped then .going (.retireReaped key) else .done .done)
  | retireReaped key, s => ({ s with setup := s.setup.retireSession key }, .done .done)
  | disconnect relay generation, s =>
    let (setup, lifecycle, removed) := s.setup.disconnectRelay s.lifecycle relay generation
    ({ s with setup, lifecycle }, .done (.applied removed))
  | applyDrainMark relay generation, s =>
    let (registry, applied) := s.setup.registry.markDraining relay generation
    ({ s with setup := { s.setup with registry } }, .done (.applied applied))
  | settleLobby key expected stillCurrent, s =>
    let (setup, applied) := s.setup.settleLobby key expected stillCurrent
    ({ s with setup }, .done (.applied applied))
  | measure pairRtts, s => ({ s with setup := { s.setup with pairRtts } }, .done .done)
  | ledger op, s => ({ s with ledger := s.ledger.map (op.apply tokenHash) }, .done .done)
  | retireRelay relay fails now, s => (s.retireRelay relay fails now, .done .done)
  | reconcile input, s => ((s.reconcile input).1, .done (.drained (s.reconcile input).2))

end CoordinatorTask

/-- A coordinator that has just started. -/
def CoordinatorState.new {δ : Type} (setup : SessionSetup) (ledger : Option (RelayLedger δ)) (config : ProvisionConfig) :
    CoordinatorState δ :=
  ⟨setup, .new, ledger, .new config⟩

abbrev CoordinatorWorld (δ : Type) := World (CoordinatorState δ) CoordinatorTask TaskResult

end RallyPoint.Coordinator
