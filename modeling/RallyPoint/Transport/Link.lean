import RallyPoint.Transport.AckManager
import RallyPoint.Transport.Dedup

/-!
# `Transport.Link` — one end of a link, and two of them over a network

The model of `transport/src/link/mod.rs` below its QUIC connection: an `AckManager` and a `Dedup`, with
what a received packet and a received cursor do to them, and what a resume over a fresh connection does.
The connection itself is what a link asks of it (`Connection`).

`Endpoint` adds what the two ends of one connection exchange: the packets an end put on the wire, which
the network may lose, repeat and reorder, and the cursors it pushed over a reliable ordered stream.
`Endpoint.act` is one action of an end, `Net.step` one action of either.
-/

namespace RallyPoint.Transport

open Lib

/-! ## A link -/

/-- The failures of folding in a received packet. -/
inductive LinkError where
  | ack (error : AckError)
  | dedup (error : DedupError)

/-- What `send_datagram` answers. -/
inductive DatagramOutcome where
  | accepted
  | tooLarge
  | lost

/-- What a link asks of its QUIC connection. -/
structure Connection where
  /-- `max_datagram_size()`: nothing when the peer takes no datagrams. -/
  maxDatagramSize : Option Nat
  sendDatagram : Packet → DatagramOutcome

/-- The failures of a send. -/
inductive SendError where
  | datagramsUnsupported
  | malformedSlot (slot : U32)
  | payloadTooLarge (needed budget : Nat)
  | packetSeqExhausted
  | connectionLost

/-- What one received packet delivered. -/
structure Received where
  fresh : List Payload
  /-- Whether the packet carried any payload at all, new or redundant. -/
  carriedPayloads : Bool
  turnsComplete : Option U64

structure Link where
  acks : AckManager
  dedup : Dedup
  /-- The one slot a single-ingress edge is authorised for. -/
  ingressSlot : Option SlotId

namespace Link

variable (sizes : WireSizes) (connection : Connection) (l : Link) (slot : SlotId)

def new : Link := ⟨.new, .new, none⟩

def withIngressSlot (slot : SlotId) : Link := ⟨.new, .new, some slot⟩

/-- On a single-ingress edge the wire slot is an untrusted claim, and is rewritten. -/
def authorize (payloads : List Payload) : List Payload :=
  match l.ingressSlot with
  | some ingress => payloads.map fun p => { p with slot := ingress.toWire }
  | none => payloads

/-- Fold the packet's acks in, then keep what it delivers first. The acks stay when the payloads are
    refused. -/
def processIncoming (packet : Packet) : Option (Link × Except LinkError Received) :=
  match l.acks.handleIncoming packet with
  | .error e => some (l, .error (.ack e))
  | .ok acks => do
      let (dedup, result) ← l.dedup.retainFreshPayloads (l.authorize packet.payloads)
      match result with
      | .error e => some ({ l with acks, dedup }, .error (.dedup e))
      | .ok fresh => some ({ l with acks, dedup }, .ok ⟨fresh, !packet.payloads.isEmpty, packet.turnsComplete⟩)

def deliveredThrough : Option Nat := l.dedup.deliveredThrough slot

/-- A cursor that does not advance retires nothing. -/
def retireThrough (throughSeq : Nat) : Link × Nat :=
  match l.dedup.advanceRetiredThrough slot throughSeq with
  | (dedup, true) =>
    let (acks, retired) := l.acks.retirePayloadsThrough slot throughSeq
    ({ l with acks, dedup }, retired)
  | (dedup, false) => ({ l with dedup }, 0)

/-- The guaranteed floor, capped by what the peer takes. -/
def datagramAdmissionBudget : Except SendError Nat :=
  match connection.maxDatagramSize with
  | none => .error .datagramsUnsupported
  | some live => .ok (min live guaranteedDatagramBudget)

/-- Whether the payload can ride datagrams for the rest of the connection's life. -/
def payloadFits (payload : Payload) : Except SendError Bool :=
  match datagramAdmissionBudget connection with
  | .error e => .error e
  | .ok budget => .ok (decide (sizes.lonePacketLen payload ≤ budget))

/-- Why `send` refuses a fresh payload before any state is built for it. -/
def refusal (payload : Payload) : Option SendError :=
  if SlotId.ofWire payload.slot = none then some (.malformedSlot payload.slot)
  else match datagramAdmissionBudget connection with
    | .error e => some e
    | .ok admission =>
      let needed := sizes.lonePacketLen payload
      if admission < needed then some (.payloadTooLarge needed admission) else none

/-- How many payloads the packet re-carried. A packet the connection refuses is built, not recorded. -/
def send (payload : Option Payload) : Link × Except SendError Nat :=
  match connection.maxDatagramSize with
  | none => (l, .error .datagramsUnsupported)
  | some budget =>
    match payload.bind (refusal sizes connection) with
    | some e => (l, .error e)
    | none =>
      match l.acks.buildOutgoing sizes payload budget with
      | .error _ => (l, .error .packetSeqExhausted)
      | .ok (acks, packet) =>
        match connection.sendDatagram packet with
        | .accepted =>
          ({ l with acks := acks.recordSent packet }, .ok (packet.payloads.length - payload.toList.length))
        | .tooLarge => ({ l with acks }, .error (.payloadTooLarge (sizes.packetLen packet) budget))
        | .lost => ({ l with acks }, .error .connectionLost)

/-- The link goes on over a fresh connection. -/
def rebind : Link := { l with acks := l.acks.resetConnection }

def reinjectUnacked (payload : Payload) : Link := { l with acks := l.acks.reinjectUnacked sizes payload }

def oldestReplayableSeq : Option Nat := l.acks.oldestReplayableSeq slot

def contiguousReplayableAnchor (front : Nat) : Nat := l.acks.contiguousReplayableAnchor slot front

def anchorReceiveWindow (anchor : Nat) : Link := { l with dedup := l.dedup.anchor slot anchor }

def seedDelivered (seq : Nat) : Option Link := do
  let dedup ← l.dedup.markDelivered slot seq
  some { l with dedup }

def seedDeliveredThrough (through : Nat) : Link := { l with dedup := l.dedup.markDeliveredThrough slot through }

end Link

/-! ## Two ends and a network -/

/-- One end of a connection, with the record of what it has done. -/
structure Endpoint where
  link : Link
  /-- An end stops at its first failure. -/
  stopped : Bool
  /-- Every packet it has built, in order. -/
  built : List Packet
  /-- The packets whose send was accepted, in order. -/
  wire : List Packet
  /-- The cursors it has pushed, in order, and how many of the peer's it has read. -/
  pushed : List (SlotId × Nat)
  cursorsRead : Nat
  /-- The keys it passed as fresh to a build. -/
  fresh : List PayloadKey
  /-- What its `retain_fresh_payloads` returned as fresh. -/
  returned : List Payload

namespace Endpoint

/-- An end with a fresh link, whose sender follows `policy`. -/
def new (policy : RecarryPolicy) : Endpoint where
  link := { Link.new with acks := .withPolicy policy }
  stopped := false
  built := []
  wire := []
  pushed := []
  cursorsRead := 0
  fresh := []
  returned := []

/-- What an end can do next. -/
inductive Action where
  /-- `build_outgoing`. -/
  | build (payload : Option Payload) (maxPacketLen : Nat)
  /-- The send of the `i`-th packet it built is accepted, and recorded with `record_sent`. -/
  | record (i : Nat)
  /-- The network hands over the `i`-th packet the peer put on the wire. -/
  | deliver (i : Nat)
  /-- Push the `delivered_through` cursor of a slot. -/
  | pushCursor (slot : SlotId)
  /-- Read the next cursor the peer pushed, and apply it with `retire_through`. -/
  | takeCursor

/-- One action of an end, given its peer. An action that is not possible changes nothing. -/
def act (sizes : WireSizes) (peer e : Endpoint) : Action → Endpoint
  | .build payload maxPacketLen =>
    match e.link.acks.buildOutgoing sizes payload maxPacketLen with
    | .error _ => { e with stopped := true }
    | .ok (acks, packet) =>
      { e with
          link := { e.link with acks }
          built := e.built ++ [packet]
          fresh := e.fresh ++ (AckManager.freshOf payload).toList.map (·.1) }
  | .record i =>
    match e.built[i]? with
    | none => e
    | some packet =>
      { e with link := { e.link with acks := e.link.acks.recordSent packet }, wire := e.wire ++ [packet] }
  | .deliver i =>
    match peer.wire[i]? with
    | none => e
    | some packet =>
      match e.link.processIncoming packet with
      | none => { e with stopped := true }
      | some (link, .error _) => { e with link, stopped := true }
      | some (link, .ok taken) => { e with link, returned := e.returned ++ taken.fresh }
  | .pushCursor slot =>
    match e.link.deliveredThrough slot with
    | none => e
    | some through => { e with pushed := e.pushed ++ [(slot, through)] }
  | .takeCursor =>
    match peer.pushed[e.cursorsRead]? with
    | none => e
    | some (slot, through) =>
      { e with link := (e.link.retireThrough slot through).1, cursorsRead := e.cursorsRead + 1 }

end Endpoint

/-- The two ends of the connection. -/
inductive Party where
  | near
  | far
deriving DecidableEq

def Party.peer : Party → Party
  | near => far
  | far => near

abbrev Net := Party → Endpoint

namespace Net

def new (policies : Party → RecarryPolicy) : Net := fun x => .new (policies x)

/-- One action of one end; a stopped end acts no more. -/
def step (sizes : WireSizes) (net : Net) (a : Party × Endpoint.Action) : Net :=
  if (net a.1).stopped then net
  else Function.update net a.1 (Endpoint.act sizes (net a.1.peer) (net a.1) a.2)

/-- The two ends after any interleaving of their actions. -/
def run (sizes : WireSizes) (policies : Party → RecarryPolicy) (acts : List (Party × Endpoint.Action)) : Net :=
  acts.foldl (step sizes) (new policies)

end Net

end RallyPoint.Transport
