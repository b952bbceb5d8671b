import RallyPoint.Lib.Wire
import RallyPoint.Proto.Messages

/-!
# `Proto.EncodedLen` — the encoded sizes of the wire messages

What `encoded_len` answers for the messages of `proto/proto/wire.proto`, field by field, with the
messages the mesh wraps around a packet: `MeshPacket` and its `LinkConditions` sidecar.
-/

namespace RallyPoint

open Lib Lib.Wire

/-! ## Payloads and packets -/

def BufferDirective.encodedLen (d : BufferDirective) : Nat :=
  unlessDefault (d.bufferTurns = 0) (varintField d.bufferTurns) +
    unlessDefault (d.applyAtFrame = 0) (varintField d.applyAtFrame)
    + unlessDefault (d.decisionSeq = 0) (varintField d.decisionSeq) +
      present (fun id : U64 => varintField id) d.authorityRelayId

def StateHashReport.encodedLen (r : StateHashReport) : Nat :=
  unlessDefault (r.step = 0) (varintField r.step) + unlessDefault (r.hash = 0) (1 + 8)

def Payload.encodedLen (p : Payload) : Nat :=
  unlessDefault (p.seq = 0) (varintField p.seq) + unlessDefault (p.slot = 0) (varintField p.slot)
    + unlessDefault p.commands.isEmpty (delimited p.commands.length) +
      present (fun frame : U32 => varintField frame) p.gameFrameCount
    + present (fun d : BufferDirective => delimited d.encodedLen) p.bufferDirective
    + present (fun generation : U64 => varintField generation) p.syncGeneration
    + present (fun r : StateHashReport => delimited r.encodedLen) p.stateHash

/-- The scalar fields of a packet. -/
def Packet.headerLen (p : Packet) : Nat :=
  unlessDefault (p.seq = 0) (varintField p.seq) + present (fun ack : U32 => varintField ack) p.ack
    + unlessDefault (p.ackBits = 0) (1 + 4) + present (fun count : U64 => varintField count) p.turnsComplete

def Packet.encodedLen (p : Packet) : Nat := p.headerLen + (p.payloads.map fun payload => delimited payload.encodedLen).sum

/-! ## The mesh wrapper -/

structure LinkConditions where
  slots : List SlotConditions

/-- One mesh datagram: the packet of one session. -/
structure MeshPacket where
  session : U64
  packet : Option Packet
  conditions : Option LinkConditions
  tenant : Option String

def SlotConditions.encodedLen (c : SlotConditions) : Nat :=
  unlessDefault (c.slot = 0) (varintField c.slot) + unlessDefault (c.rttUs = 0) (varintField c.rttUs)
    + unlessDefault (c.lostPackets = 0) (varintField c.lostPackets) +
      unlessDefault (c.sentPackets = 0) (varintField c.sentPackets)
    + present (fun _ : U64 => 1 + 8) c.connectionEpoch

def LinkConditions.encodedLen (c : LinkConditions) : Nat := (c.slots.map fun slot => delimited slot.encodedLen).sum

def MeshPacket.encodedLen (p : MeshPacket) : Nat :=
  unlessDefault (p.session = 0) (varintField p.session) +
    present (fun packet : Packet => delimited packet.encodedLen) p.packet
    + present (fun c : LinkConditions => delimited c.encodedLen) p.conditions +
      present (fun t : String => delimited t.utf8ByteSize) p.tenant

/-! ## Bounds -/

/-- The widest header: every varint at its longest, and every field present. -/
theorem Packet.headerLen_le (p : Packet) : p.headerLen ≤ 28 := by
  have hword : ∀ x : U32, varintField x ≤ 1 + 5 := fun x => varintField_le (by decide) (lt_trans x.isLt (by decide))
  have hlong : ∀ x : U64, varintField x ≤ 1 + 10 := fun x => varintField_le (by decide) (lt_trans x.isLt (by decide))
  have hseq := (unlessDefault_le (p.seq = 0) (varintField p.seq)).trans (hword p.seq)
  have hack := present_le hword p.ack
  have hbits := unlessDefault_le (p.ackBits = 0) (1 + 4)
  have hturns := present_le hlong p.turnsComplete
  unfold Packet.headerLen
  omega

end RallyPoint
