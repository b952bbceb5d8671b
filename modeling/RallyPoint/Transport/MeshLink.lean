import RallyPoint.Transport.Link

/-!
# `Transport.MeshLink` — the sessions of one relay-to-relay connection

The model of the send path of `transport/src/mesh_link/`: each session has acks of its own, and its
packets ride the shared connection wrapped in a `MeshPacket`. A fresh payload is admitted against a floor
that holds for the connection's life; the packet is built to what the live datagram leaves beside the
wrapper, the tenant and the conditions.
-/

namespace RallyPoint.Transport

open Lib

structure MeshSessionKey where
  session : U64
  tenant : Option String
deriving DecidableEq

structure SessionLink where
  acks : AckManager
  dedup : Dedup

inductive MeshLinkError where
  | datagramsUnsupported
  | unknownSession (session : U64)
  | malformedSlot (slot : U32)
  | payloadTooLarge (needed budget : Nat)
  | packetSeqExhausted
  | connectionLost

/-- What a mesh link asks of its QUIC connection. -/
structure MeshConnection where
  maxDatagramSize : Option Nat
  sendDatagram : MeshPacket → DatagramOutcome

structure MeshLink where
  sessions : MeshSessionKey → Option SessionLink

/-! ## Sizes -/

/-- The session field, and the key and length of the packet field. -/
def meshPacketOverhead : Nat := 16

def conditionsElementLen (conditions : LinkConditions) : Nat :=
  1 + Wire.varintLen conditions.encodedLen + conditions.encodedLen

def tenantElementLen (tenant : String) : Nat := 1 + Wire.varintLen tenant.utf8ByteSize + tenant.utf8ByteSize

def packetAdmissionFloor (liveDatagramBudget : Nat) (tenant : Option String) : Nat :=
  min guaranteedDatagramBudget liveDatagramBudget - meshPacketOverhead - (tenant.map tenantElementLen).getD 0

/-- The inner packet's budget, as `send` and `payload_fits` compute it. -/
def meshPacketBudget (datagramBudget : Nat) (conditions : Option LinkConditions) (tenant : Option String) : Nat :=
  datagramBudget - (conditions.map conditionsElementLen).getD 0 - (tenant.map tenantElementLen).getD 0 - meshPacketOverhead

namespace MeshLink

def payloadFits (maxDatagramSize : Option Nat) (payload : Payload) (conditions : Option LinkConditions)
    (tenant : Option String) :
    Except MeshLinkError Bool :=
  match maxDatagramSize with
  | none => .error .datagramsUnsupported
  | some budget => .ok (decide (WireSizes.prost.lonePacketLen payload ≤
      min (meshPacketBudget budget conditions tenant) (packetAdmissionFloor budget tenant)))

/-! ## Sending -/

/-- Why `send` refuses a fresh payload before any state is built for it. -/
def refusal (budget : Nat) (tenant : Option String) (payload : Payload) : Option MeshLinkError :=
  if SlotId.ofWire payload.slot = none then some (.malformedSlot payload.slot)
  else
    let needed := WireSizes.prost.lonePacketLen payload
    let admission := packetAdmissionFloor budget tenant
    if admission < needed then some (.payloadTooLarge needed admission) else none

/-- `send`, up to the packet. -/
def outgoing (budget : Nat) (tenant : Option String) (acks : AckManager) (payload : Option Payload)
    (conditions : Option LinkConditions) :
    Except MeshLinkError (AckManager × Packet) :=
  match payload.bind (refusal budget tenant) with
  | some e => .error e
  | none =>
    match acks.buildOutgoing .prost payload (meshPacketBudget budget conditions tenant) with
    | .error _ => .error .packetSeqExhausted
    | .ok built => .ok built

/-- The datagram around a packet. -/
def wrap (key : MeshSessionKey) (conditions : Option LinkConditions) (packet : Packet) : MeshPacket :=
  ⟨key.session, some packet, conditions, key.tenant⟩

/-- How many payloads the packet re-carried. -/
def send (connection : MeshConnection) (l : MeshLink) (key : MeshSessionKey) (payload : Option Payload)
    (conditions : Option LinkConditions) : MeshLink × Except MeshLinkError Nat :=
  match connection.maxDatagramSize with
  | none => (l, .error .datagramsUnsupported)
  | some budget =>
    match l.sessions key with
    | none => (l, .error (.unknownSession key.session))
    | some session =>
      match outgoing budget key.tenant session.acks payload conditions with
      | .error e => (l, .error e)
      | .ok (acks, packet) =>
        let put (acks : AckManager) : MeshLink := ⟨Function.update l.sessions key (some { session with acks })⟩
        match connection.sendDatagram (wrap key conditions packet) with
        | .accepted => (put (acks.recordSent packet), .ok (packet.payloads.length - payload.toList.length))
        | .tooLarge => (put acks, .error (.payloadTooLarge (wrap key conditions packet).encodedLen budget))
        | .lost => (put acks, .error .connectionLost)

end MeshLink

end RallyPoint.Transport
