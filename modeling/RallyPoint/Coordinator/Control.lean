import Mathlib.Data.String.Basic
import RallyPoint.Proto.Token
import RallyPoint.Coordinator.Ledger

/-!
# `Coordinator.Control` — what the coordinator and its peers tell each other

The records of `proto/src/control` that session setup reads and writes: what a relay says of itself when
it enrolls, what a tenant asks for, what it is answered, and the descriptor that tells a relay to serve a
session.

A tenant, a region and a relay are named by the value the source wraps. A capability is one of the tags
the coordinator looks for, or another one.
-/

namespace RallyPoint.Coordinator

open Lib Proto

abbrev TenantId := String

abbrev RegionId := String

abbrev RelayId := Nat

abbrev SessionId := Nat

/-- `(TenantId, SessionId)`, the key of every map over sessions, and `DescriptorKey`. -/
structure SessionKey where
  tenant : TenantId
  session : SessionId
deriving DecidableEq

/-- The order a relay's descriptors are kept in. -/
def SessionKey.lex (k : SessionKey) : SessionId ×ₗ TenantId := toLex (k.session, k.tenant)

theorem SessionKey.lex_injective : Function.Injective SessionKey.lex := by
  intro a b h
  obtain ⟨hsession, htenant⟩ : a.session = b.session ∧ a.tenant = b.tenant := by simpa [SessionKey.lex] using h
  cases a
  cases b
  simp_all

instance SessionKey.linearOrder : LinearOrder SessionKey :=
  { PartialOrder.lift SessionKey.lex SessionKey.lex_injective with
    le_total := fun a b => le_total a.lex b.lex
    toDecidableLE := fun a b => inferInstanceAs (Decidable (a.lex ≤ b.lex))
    toDecidableEq := instDecidableEqSessionKey }

/-! ## Relays -/

/-- The capability tags a relay may advertise. -/
inductive Capability where
  | finalizedDropV1
  | rollbackV1
  | evidenceV1
  | periodicEvidenceV1
  | descriptorAckV1
  | other (tag : String)
deriving DecidableEq

/-- What a relay presents when its control connection opens. -/
structure RelayHello where
  relayId : RelayId
  relayAddr : SocketAddr
  certDer : List UInt8
  capabilities : List Capability
  relayAddrs : List SocketAddr
  region : Option RegionId
  enrollToken : Option String
  bootId : Option U64

structure RelayEntry where
  relayId : RelayId
  relayAddr : SocketAddr
  certDer : List UInt8
  relayAddrs : List SocketAddr
  capabilities : List Capability
  region : Option RegionId

/-- Where clients reach a relay. -/
structure RelayEndpoint where
  relayId : RelayId
  relayAddr : SocketAddr
  certDer : List UInt8
  relayAddrs : List SocketAddr
deriving DecidableEq

/-- Where other relays reach a relay. -/
structure RelayPeer where
  relayId : RelayId
  relayAddr : SocketAddr
  certDer : List UInt8
  relayAddrs : List SocketAddr

namespace RelayEntry

variable (e : RelayEntry)

/-- `RelayEndpoint::from`. -/
def endpoint : RelayEndpoint := ⟨e.relayId, e.relayAddr, e.certDer, e.relayAddrs⟩

/-- `RelayPeer::from`. -/
def peer : RelayPeer := ⟨e.relayId, e.relayAddr, e.certDer, e.relayAddrs⟩

def has (c : Capability) : Bool := e.capabilities.contains c

/-- `relay_finalize_capable`. -/
def finalizeCapable : Bool := e.has .finalizedDropV1

/-- `relay_rollback_capable`. -/
def rollbackCapable : Bool := e.finalizeCapable && e.has .rollbackV1

/-- `relay_evidence_capable`. -/
def evidenceCapable : Bool := e.has .evidenceV1

end RelayEntry

/-! ## Requests and responses -/

abbrev ClientPublicKey := List.Vector UInt8 publicKeyLen

def maxEvidenceKeys : Nat := 16

structure EvidenceKey where
  keyId : U32
  publicKey : ClientPublicKey
deriving DecidableEq

structure PlayerHandoff where
  requireEvidence : Bool
  slot : SlotId
  clientPubkey : ClientPublicKey
  externalRef : Option String
  observer : Bool
  region : Option RegionId

structure AllowedLobbyCommand where
  slot : SlotId
  payload : List UInt8
deriving DecidableEq

structure LobbyPolicy where
  allowed : List AllowedLobbyCommand
deriving DecidableEq

/-- A tenant's request to stand up a session. -/
structure SessionRequest where
  periodicEvidence : Bool
  evidenceKeys : List EvidenceKey
  tenant : TenantId
  players : List PlayerHandoff
  externalId : Option String
  latencyEstimateMs : Option U32
  rollback : Bool
  lobbyPolicy : Option LobbyPolicy

structure BufferBounds where
  min : U32
  max : U32
deriving DecidableEq

structure SlotHome where
  slot : SlotId
  relay : RelayEndpoint
deriving DecidableEq

structure PlayerToken where
  slot : SlotId
  token : List UInt8
deriving DecidableEq

structure RelayRegionLabel where
  relayId : RelayId
  region : RegionId
deriving DecidableEq

structure SessionResponse where
  session : SessionId
  homeRelay : RelayEndpoint
  slotHomes : List SlotHome
  tokens : List PlayerToken
  bounds : BufferBounds
  relayRegions : List RelayRegionLabel
  rollback : Bool
deriving DecidableEq

/-! ## Descriptors -/

inductive DepartureKind where
  | left
  | dropped
deriving DecidableEq

structure DepartedSlot where
  slot : SlotId
  kind : DepartureKind
  finalTurnCount : Option U64
  finalized : Bool
deriving DecidableEq

structure SlotEvidenceAssignment where
  slot : SlotId
  revision : Nat

structure SlotExternalRef where
  slot : SlotId
  externalRef : String

/-- What a relay needs to serve a session. -/
structure SessionDescriptor where
  periodicEvidence : Bool
  evidenceKeys : List EvidenceKey
  requiredEvidenceSlots : List SlotId
  evidenceAssignments : List SlotEvidenceAssignment
  tenant : TenantId
  session : SessionId
  peers : List RelayPeer
  bounds : BufferBounds
  authorityOrder : List RelayId
  externalId : Option String
  slotRefs : List SlotExternalRef
  observerSlots : List SlotId
  expectedSlots : List SlotId
  homedSlots : List SlotId
  resumed : Bool
  finalizedDrops : Bool
  rollback : Bool
  lobbyPolicy : Option LobbyPolicy
  lobbySettled : Bool
  departedSlots : List DepartedSlot
  latencyEstimateMs : Option U32
  relayRegions : List RelayRegionLabel

def SessionDescriptor.key (d : SessionDescriptor) : SessionKey := ⟨d.tenant, d.session⟩

end RallyPoint.Coordinator
