import RallyPoint.Lib.OrdMap
import RallyPoint.Proto.EncodedLen
import RallyPoint.Transport.History
import RallyPoint.Transport.SequenceBuffer

/-!
# `Transport.AckManager` — the send and ack bookkeeping of one link

The model of `transport/src/ack_manager/`: what a link has sent and not yet seen acknowledged, which of
it rides along in the next packet, and what an incoming packet retires.

- `policy.rs`, `sent.rs`: `CarrySpacing`, `RecarryPolicy`, `SentPayload` with its due test and its
  waiting age.
- `mod.rs`: `resetConnection`, and what a resume may anchor at (`oldestReplayableSeq`,
  `contiguousReplayableAnchor`).
- `send.rs`: `buildOutgoing` (choose), `recordSent` (record what reached the wire), `reinjectUnacked`.
- `recv.rs`: `handleIncoming`, `retirePayloadsThrough`.

The sizes of encoded messages are parameters (`WireSizes`), which prost's encoding gives values
(`WireSizes.prost`).
-/

namespace RallyPoint.Transport

open Lib

/-! ## Policy -/

/-- Carry-spacing schedule: dense at first, then geometrically sparser. -/
structure CarrySpacing where
  denseCarries : Nat
  maxSpacing : Nat

/-- Packets that must pass between two carries of a payload carried `sendCount` times. -/
def CarrySpacing.requiredGap (c : CarrySpacing) (sendCount : Nat) : Nat :=
  if sendCount ≤ c.denseCarries then 1
  else
    let doublings := min (sendCount - c.denseCarries) 30
    min (2 ^ doublings) (max c.maxSpacing 1)

/-- How much redundancy a packet carries, and how often one payload is re-carried. -/
structure RecarryPolicy where
  redundancyByteBudget : Option Nat
  spacing : Option CarrySpacing

/-- `RecarryPolicy::default`, the shipped policy. -/
def RecarryPolicy.shipped : RecarryPolicy := ⟨some 384, some ⟨2, 8⟩⟩

/-! ## What is in flight -/

/-- The encoded sizes the codec gives: of a packet, of a payload, and of a varint. -/
structure WireSizes where
  packetLen : Packet → Nat
  payloadLen : Payload → Nat
  varintLen : Nat → Nat

/-- The sizes of prost's encoding. -/
def WireSizes.prost : WireSizes := ⟨Packet.encodedLen, Payload.encodedLen, Wire.varintLen⟩

/-- One element of the repeated `payloads` field, its tag and length included. -/
def WireSizes.payloadElementLen (sizes : WireSizes) (payloadLen : Nat) : Nat := 1 + sizes.varintLen payloadLen + payloadLen

/-- What every connection offers a datagram at every moment of its life. -/
def guaranteedDatagramBudget : Nat := 1024

/-- The size of a packet that carries `payload` alone, under the widest header. -/
def WireSizes.lonePacketLen (sizes : WireSizes) (payload : Payload) : Nat :=
  let header : Packet := {
    seq := ⟨u32Max, u32Max_lt⟩
    ack := some ⟨u32Max, u32Max_lt⟩
    ackBits := BitVec.allOnes 32
    payloads := []
    turnsComplete := some ⟨u64Max, u64Max_lt⟩ }
  sizes.packetLen header + sizes.payloadElementLen (sizes.payloadLen payload)

def WireSizes.fitsGuaranteedDatagram (sizes : WireSizes) (payload : Payload) : Bool :=
  decide (sizes.lonePacketLen payload ≤ guaranteedDatagramBudget)

/-- What one of our sent packets carried, so an ack can retire its payloads. -/
structure SentPacket where
  payloadSlotsSeqs : List PayloadKey
deriving DecidableEq, Inhabited

/-- A payload we have sent and are still re-sending until it is acked. -/
structure SentPayload where
  /-- How many packets it has been recorded as riding on this connection. -/
  sendCount : Nat
  /-- The packet that last carried it on this connection. -/
  lastCarriedPacketSeq : Option Nat
  /-- The packet seq current when it entered the window. -/
  registeredAtPacketSeq : Nat
  /-- The size of its element in a packet. -/
  wireLen : Nat
  payload : Payload

namespace SentPayload

/-- Whether the schedule permits carrying the payload in packet `buildingSeq`. -/
def isDue (sent : SentPayload) (spacing : Option CarrySpacing) (buildingSeq : Nat) : Bool :=
  match spacing with
  | none => true
  | some spacing =>
    match sent.lastCarriedPacketSeq with
    | none => true
    | some last => decide (spacing.requiredGap sent.sendCount ≤ buildingSeq - last)

/-- The packet seq the payload has been waiting since. -/
def waitingSince (sent : SentPayload) : Nat := sent.lastCarriedPacketSeq.getD sent.registeredAtPacketSeq

/-- A payload that enters the window while packet `packetSeq` is next. -/
def registered (sizes : WireSizes) (packetSeq : Nat) (payload : Payload) : SentPayload where
  sendCount := 0
  lastCarriedPacketSeq := none
  registeredAtPacketSeq := packetSeq
  wireLen := sizes.payloadElementLen (sizes.payloadLen payload)
  payload := payload

/-- Packets since the last recorded carry, or since the payload entered the window. -/
def waitingAge (sent : SentPayload) (buildingSeq : Nat) : Nat := buildingSeq - sent.waitingSince

end SentPayload

/-- Every `u32` packet seq of the connection has been assigned. -/
inductive PacketSeqExhausted where
  | packetSeqExhausted

/-- An incoming packet was internally inconsistent. -/
inductive AckError where
  | ackAheadOfSent (ack sent : U32)
  | ackBitsWithoutAck
  | ackBitsOutOfRange (ack : U32) (ackBits : BitVec 32)

/-- How many of our own packets are remembered. -/
def sentPacketsSize : Nat := 256

instance : NeZero sentPacketsSize := ⟨by decide⟩

/-- Sending packets and processing acknowledgements for one link. -/
structure AckManager where
  /-- The seq of the next packet. -/
  packetSeq : U32
  sentPackets : SequenceBuffer SentPacket sentPacketsSize
  /-- Payloads that have not been acked, by origin identity. -/
  unackedPayloads : OrdMap PayloadKey SentPayload
  /-- The wire cost of the whole window; `none` after a bulk retirement, until the next build. -/
  unackedPayloadWireLen : Option Nat
  receivedPackets : ReceivedPacketHistory
  policy : RecarryPolicy
  turnsComplete : Option U64

namespace AckManager

variable (m : AckManager)

def withPolicy (policy : RecarryPolicy) : AckManager where
  packetSeq := 0
  sentPackets := .withCapacity
  unackedPayloads := .empty
  unackedPayloadWireLen := some 0
  receivedPackets := .empty
  policy := policy
  turnsComplete := none

def new : AckManager := withPolicy .shipped

def setTurnsComplete (count : Option U64) : AckManager := { m with turnsComplete := count }

/-- The connection's state starts over, the unacked payloads stay. -/
def resetConnection : AckManager :=
  { m with
      packetSeq := 0
      sentPackets := .withCapacity
      receivedPackets := .empty
      unackedPayloads := m.unackedPayloads.mapValues fun _ sent =>
        { sent with sendCount := 0, lastCarriedPacketSeq := none, registeredAtPacketSeq := 0 } }

/-- Insert or replace one unacked payload, keeping the aggregate wire size exact. -/
def insertUnacked (key : PayloadKey) (sent : SentPayload) : AckManager :=
  let less := match m.unackedPayloads.get? key with
    | some previous => m.unackedPayloadWireLen.map (· - previous.wireLen)
    | none => m.unackedPayloadWireLen
  { m with
      unackedPayloads := m.unackedPayloads.insert key sent
      unackedPayloadWireLen := less.map (saturatingAdd u64Max · sent.wireLen) }

def removeUnacked (key : PayloadKey) : AckManager :=
  match m.unackedPayloads.get? key with
  | none => m
  | some removed =>
    { m with
        unackedPayloads := m.unackedPayloads.erase key
        unackedPayloadWireLen := m.unackedPayloadWireLen.map (· - removed.wireLen) }

/-- `unacked_payload_wire_len`: the wire cost of the window, refreshed if it was invalidated. -/
def wireLenTotal : Nat :=
  match m.unackedPayloadWireLen with
  | some total => total
  | none => m.unackedPayloads.values.foldl (fun total sent => saturatingAdd u64Max total sent.wireLen) 0

/-! ## Building a packet -/

/-- The next `u32`, if there is one. -/
def nextSeq (seq : U32) : Option U32 := if h : (seq : Nat) + 1 < 2 ^ 32 then some ⟨seq + 1, h⟩ else none

/-- The fresh payload a build tracks: one whose wire slot names no slot is dropped. -/
def freshOf (payload : Option Payload) : Option (PayloadKey × Payload) := payload.bind fun p => p.key?.map (·, p)

/-- Spacing gates only packets that carry a fresh payload. -/
def spacingFor (fresh : Option (PayloadKey × Payload)) : Option CarrySpacing :=
  if fresh.isSome then m.policy.spacing else none

/-- The constrained refill: the first candidate is capped by the datagram alone, and stops the refill when it
    does not fit; a later one that does not fit under the redundancy cap is passed over. -/
def pack (maxPacketLen redundancyCap : Nat) : Bool → Nat → List SentPayload → List SentPayload
  | _, _, [] => []
  | false, used, sent :: rest =>
    if maxPacketLen < used + sent.wireLen then []
    else sent :: pack maxPacketLen redundancyCap true (used + sent.wireLen) rest
  | true, used, sent :: rest =>
    if redundancyCap < used + sent.wireLen then pack maxPacketLen redundancyCap true used rest
    else sent :: pack maxPacketLen redundancyCap true (used + sent.wireLen) rest

/-- `sort_by_key(|sent| Reverse(sent.waiting_age(building_seq)))`, which is stable. -/
def longestWaitingFirst (buildingSeq : Nat) (candidates : List SentPayload) : List SentPayload :=
  candidates.insertionSort fun a b => b.waitingAge buildingSeq ≤ a.waitingAge buildingSeq

/-- The redundancy of one packet: the whole window when no schedule filters it and it fits; else all that is
    due when that fits; else the due payloads, longest waiting first, as far as the caps allow. -/
def refill (spacing : Option CarrySpacing) (buildingSeq used maxPacketLen redundancyCap : Nat) : List SentPayload :=
  let window := m.unackedPayloads.values
  let due := window.filter fun sent => sent.isDue spacing buildingSeq
  let remaining := checkedSub redundancyCap used
  if spacing = none ∧ remaining.any (m.wireLenTotal ≤ ·) then window
  else if remaining.any ((due.map (·.wireLen)).sum ≤ ·) then due
  else pack maxPacketLen redundancyCap false used (longestWaitingFirst buildingSeq due)

/-- The next packet, with the fresh payload, then the redundancy. Only the fresh payload is registered as
    unacked here. -/
def buildOutgoing (sizes : WireSizes) (m : AckManager) (payload : Option Payload) (maxPacketLen : Nat) :
    Except PacketSeqExhausted (AckManager × Packet) :=
  match nextSeq m.packetSeq with
  | none => .error .packetSeqExhausted
  | some advanced =>
    let header : Packet := {
      seq := m.packetSeq
      ack := m.receivedPackets.mostRecent
      ackBits := m.receivedPackets.ackBits
      payloads := []
      turnsComplete := m.turnsComplete }
    let fresh := freshOf payload
    let used := sizes.packetLen header + match fresh with
      | some (_, p) => sizes.payloadElementLen (sizes.payloadLen p)
      | none => 0
    let redundancyCap := match m.policy.redundancyByteBudget with
      | some budget => min maxPacketLen (saturatingAdd u64Max used budget)
      | none => maxPacketLen
    let redundancy := m.refill (m.spacingFor fresh) m.packetSeq used maxPacketLen redundancyCap
    let packet := { header with payloads := (fresh.toList.map (·.2)) ++ redundancy.map (·.payload) }
    let m' := { m with packetSeq := advanced, unackedPayloadWireLen := some m.wireLenTotal }
    match fresh with
    | none => .ok (m', packet)
    | some (key, p) => .ok (m'.insertUnacked key (.registered sizes m.packetSeq p), packet)

/-- One carry of a payload by packet `seq`. -/
def carry (seq : Nat) (sent : SentPayload) : SentPayload :=
  { sent with sendCount := sent.sendCount + 1, lastCarriedPacketSeq := some seq }

/-- Each carried payload's count and stamp advance, and the packet enters the sent set. -/
def recordSent (packet : Packet) : AckManager :=
  let keys := packet.payloads.filterMap (·.key?)
  { m with
      unackedPayloads := keys.foldl (fun window key => window.modify key (carry packet.seq)) m.unackedPayloads
      sentPackets := m.sentPackets.insert packet.seq ⟨keys⟩ }

/-- Register a payload as still unacked without sending a packet. -/
def reinjectUnacked (sizes : WireSizes) (m : AckManager) (payload : Payload) : AckManager :=
  match payload.key? with
  | none => m
  | some key =>
    if (m.unackedPayloads.get? key).isSome then m
    else m.insertUnacked key (.registered sizes m.packetSeq payload)

/-! ## What a resume may anchor at -/

/-- `unacked_payloads.range((slot, u64::MIN)..=(slot, u64::MAX))`: the slot's unacked seqs, ascending. -/
def slotSeqs (slot : SlotId) : List Nat := (m.unackedPayloads.entries.filter fun e => e.1.slot = slot).map (·.1.seq)

def oldestReplayableSeq (slot : SlotId) : Option Nat := (m.slotSeqs slot).head?

/-- The loop of `contiguous_replayable_anchor`: down while the next lower seq is adjacent. -/
def descend : Nat → List Nat → Nat
  | anchor, [] => anchor
  | anchor, seq :: rest => if seq + 1 = anchor then descend seq rest else anchor

/-- The retention `front`, extended downward through contiguously unacked seqs. -/
def contiguousReplayableAnchor (slot : SlotId) (front : Nat) : Nat :=
  descend front ((m.slotSeqs slot).filter (· < front)).reverse

/-! ## Processing a packet -/

/-- One of our packets was acked, so every payload it carried is. -/
def retirePacket (packetSeq : Nat) : AckManager :=
  match m.sentPackets.remove packetSeq with
  | (_, none) => m
  | (sentPackets, some p) => p.payloadSlotsSeqs.foldl removeUnacked { m with sentPackets := sentPackets }

/-- The loop over the ack bits: bit `i - 1` stands for packet `ack - i`. -/
def retireBits (ack : Nat) : Nat → Nat → BitVec 32 → AckManager → AckManager
  | 0, _, _, m => m
  | fuel + 1, i, bits, m =>
    if ack < i then m
    else retireBits ack fuel (i + 1) (bits >>> 1) (if bits &&& 1#32 = 1#32 then m.retirePacket (ack - i) else m)

/-- The consistency checks of `handle_incoming`. -/
def checkAcks (incoming : Packet) : Option AckError :=
  match incoming.ack with
  | some ack =>
    if m.packetSeq ≤ ack then some (.ackAheadOfSent ack m.packetSeq)
    else if (ack : Nat) < 32 ∧ incoming.ackBits >>> (ack : Nat) ≠ 0#32 then
      some (.ackBitsOutOfRange ack incoming.ackBits)
    else none
  | none => if incoming.ackBits ≠ 0#32 then some .ackBitsWithoutAck else none

/-- Record the packet for our own acking, and retire what it acks. -/
def handleIncoming (incoming : Packet) : Except AckError AckManager :=
  match m.checkAcks incoming with
  | some error => .error error
  | none =>
    let m' := { m with receivedPackets := m.receivedPackets.record incoming.seq }
    .ok (match incoming.ack with
      | none => m'
      | some ack => retireBits ack 32 1 incoming.ackBits (m'.retirePacket ack))

/-- Retire one slot's payloads up to `throughSeq`. -/
def retirePayloadsThrough (slot : SlotId) (throughSeq : Nat) : AckManager × Nat :=
  let kept := m.unackedPayloads.filter fun key _ => key.slot ≠ slot ∨ throughSeq < key.seq
  let retired := m.unackedPayloads.size - kept.size
  ({ m with
      unackedPayloads := kept
      unackedPayloadWireLen := if 0 < retired then none else m.unackedPayloadWireLen }, retired)

end AckManager

end RallyPoint.Transport
