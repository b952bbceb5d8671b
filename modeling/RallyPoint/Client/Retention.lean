import RallyPoint.Transport.Link

/-!
# `Client.Retention` — the client's own recent turns, and re-sending them after a resume

The model of `client/src/driver/retention.rs`, with the part of `send.rs` that numbers and retains a turn
and the two ways `reconnect.rs` resumes a session. A run (`Driver.Step`) may hold any number of resumes.
-/

namespace RallyPoint.Client

open Lib Transport

/-! ## The ring -/

def retentionTurnCap : Nat := 512

def retentionByteCap : Nat := 256 * 1024

/-- What a turn counts against the byte cap. -/
def retainedSize (payload : Payload) : Nat := payload.commands.length + 32

/-- The bytes of a list of turns. -/
def retainedBytes (turns : List Payload) : Nat := (turns.map retainedSize).sum

theorem retainedBytes_drop {dropped : Payload} {rest : List Payload} {bytes : Nat}
    (h : bytes = retainedBytes (dropped :: rest)) : bytes - retainedSize dropped = retainedBytes rest := by
  rw [h, retainedBytes, List.map_cons, List.sum_cons, Nat.add_sub_cancel_left]
  rfl

theorem retainedBytes_concat {turns : List Payload} {bytes : Nat} (h : bytes = retainedBytes turns) (payload : Payload) :
    bytes + retainedSize payload = retainedBytes (turns ++ [payload]) := by
  simp [h, retainedBytes]

/-- The turns sent last, oldest first, with their running byte total. -/
structure RetentionRing where
  turns : List Payload
  bytes : Nat
  counted : bytes = retainedBytes turns

namespace RetentionRing

/-- `RetentionRing::default`. -/
def empty : RetentionRing := ⟨[], 0, rfl⟩

/-- The loop of `push`: drop the oldest turns until both caps hold. A lone turn is kept. -/
def evict : (turns : List Payload) → (bytes : Nat) → bytes = retainedBytes turns → RetentionRing
  | [], bytes, h => ⟨[], bytes, h⟩
  | dropped :: rest, bytes, h =>
    if retentionTurnCap < rest.length + 1 ∨ (retentionByteCap < bytes ∧ 1 < rest.length + 1) then
      evict rest (bytes - retainedSize dropped) (retainedBytes_drop h)
    else ⟨dropped :: rest, bytes, h⟩

/-- Record one sent turn. -/
def push (r : RetentionRing) (payload : Payload) : RetentionRing :=
  evict (r.turns ++ [payload]) (r.bytes + retainedSize payload) (retainedBytes_concat r.counted payload)

/-- The seq of the oldest retained turn. -/
def frontSeq (r : RetentionRing) : Option Nat := r.turns.head?.map (·.seq)

/-- The oldest retained turn that no datagram is sure to carry. -/
def oldestOversizeSeq (sizes : WireSizes) (r : RetentionRing) : Option Nat :=
  ((r.turns.filter fun turn => !sizes.fitsGuaranteedDatagram turn).map fun turn => (turn.seq : Nat)).min?

end RetentionRing

/-! ## Sending a turn -/

/-- The part of the driver's `LoopState` that its own turns live in. -/
structure LoopState where
  /-- The seq of the next turn this client sends. -/
  nextOutboundSeq : U64
  retention : RetentionRing
  /-- Retained turns staged for the control stream of the next connection. -/
  pendingControlRedivert : List Payload

/-- The driver's link with its state. -/
structure Driver where
  link : Link
  state : LoopState

/-- A driver that has sent nothing. -/
def Driver.fresh (link : Link) : Driver := ⟨link, 0, .empty, []⟩

/-- `next_outbound_seq += 1`, which overflows at `u64::MAX`. -/
def nextOutbound (seq : U64) : Option U64 := if h : (seq : Nat) + 1 < 2 ^ 64 then some ⟨seq + 1, h⟩ else none

/-- Number the turn, retain it, and send it. A turn that does not fit a datagram goes over the control
    stream and never enters the unacked window. -/
def Driver.sendGameTurn (sizes : WireSizes) (connection : Connection) (ownSlot : SlotId) (d : Driver)
    (payload : Payload) : Option Driver := do
  let next ← nextOutbound d.state.nextOutboundSeq
  let turn := { payload with seq := d.state.nextOutboundSeq, slot := ownSlot.toWire }
  let state := { d.state with nextOutboundSeq := next, retention := d.state.retention.push turn }
  match Link.payloadFits sizes connection turn with
  | .ok true => some ⟨(d.link.send sizes connection (some turn)).1, state⟩
  | _ => some ⟨d.link, state⟩

/-! ## What a resume declares -/

/-- What a dial to a replacement relay declares for the client's own slot. -/
def rehomeOwnSlotAnchor (link : Link) (ownSlot : SlotId) (retentionFront : Option Nat) : Option Nat :=
  match retentionFront with
  | some front => some (link.contiguousReplayableAnchor ownSlot front)
  | none => link.oldestReplayableSeq ownSlot

/-- The own-slot anchor of `same_relay_resume_cursors`: the oldest seq either re-send path starts at. -/
def sameRelayAnchor (oldestReplayable oldestRestagedOversize : Option Nat) (nextOutboundSeq : Nat) : Nat :=
  match oldestReplayable, oldestRestagedOversize with
  | some datagram, some oversize => min datagram oversize
  | some only, none => only
  | none, some only => only
  | none, none => nextOutboundSeq

/-- The cursors a dial to the same relay presents, the own slot's always among them. -/
def sameRelayResumeCursors (peerCursors : List (SlotId × Nat)) (oldestReplayable oldestRestagedOversize : Option Nat)
    (ownSlot : SlotId) (nextOutboundSeq : Nat) : List (SlotId × Nat) :=
  peerCursors ++ [(ownSlot, sameRelayAnchor oldestReplayable oldestRestagedOversize nextOutboundSeq)]

/-! ## What a resume re-sends -/

/-- Stage a turn, unless one of its identity is staged already. -/
def stageControlRedivert (pending : List Payload) (turn : Payload) : List Payload :=
  if pending.any fun staged => staged.slot = turn.slot ∧ staged.seq = turn.seq then pending else pending ++ [turn]

namespace Driver

variable (sizes : WireSizes) (connection : Connection) (d : Driver)

/-- One turn of the loop of `reinject_retention`. A path that sizes no datagram counts as too small. -/
def reinjectTurn (turn : Payload) : Driver :=
  match Link.payloadFits sizes connection turn with
  | .ok true => { d with link := d.link.reinjectUnacked sizes turn }
  | _ =>
    { d with
        state.pendingControlRedivert := stageControlRedivert d.state.pendingControlRedivert turn }

def reinjectRetention : Driver :=
  d.state.retention.turns.foldl (reinjectTurn sizes connection) d

/-- One turn of the loop of `redivert_oversize_retention_on_same_relay_resume`. -/
def redivertTurn (turn : Payload) : Driver :=
  match Link.payloadFits sizes connection turn with
  | .ok false =>
    { d with
        state.pendingControlRedivert := stageControlRedivert d.state.pendingControlRedivert turn }
  | _ => d

/-- `redivert_oversize_retention_on_same_relay_resume`. -/
def redivertOversize : Driver :=
  d.state.retention.turns.foldl (redivertTurn sizes connection) d

/-- The link goes on over a fresh connection. -/
def rebind (d : Driver) : Driver := { d with link := d.link.rebind }

/-- A successful dial to a replacement relay: `rebind_from`, then `reinject_retention`. -/
def rehome : Driver := d.rebind.reinjectRetention sizes connection

/-- A successful dial to the same relay: `rebind_from`, then the redivert. -/
def resumeSameRelay : Driver := d.rebind.redivertOversize sizes connection

end Driver

/-- Send the staged turns in order. The first failure ends the loop and leaves the rest staged. -/
def redivertPendingControl (sends : Payload → Bool) : List Payload → List Payload
  | [] => []
  | turn :: rest => if sends turn then redivertPendingControl sends rest else turn :: rest

/-! ## Between two resumes -/

/-- One thing the driver does that touches its own turns. -/
inductive Driver.Step (sizes : WireSizes) (ownSlot : SlotId) : Driver → Driver → Prop where
  /-- A game turn is sent. -/
  | turn {d d' : Driver} (connection : Connection) (payload : Payload)
      (h : d.sendGameTurn sizes connection ownSlot payload = some d') : Step sizes ownSlot d d'
  /-- A packet without a turn is sent. -/
  | flush (d : Driver) (connection : Connection) :
      Step sizes ownSlot d { d with link := (d.link.send sizes connection none).1 }
  /-- A packet of the relay is folded in. -/
  | packet {d : Driver} {link : Link} {result : Except LinkError Received} (packet : Packet)
      (h : d.link.processIncoming packet = some (link, result)) : Step sizes ownSlot d { d with link }
  /-- A cursor of the relay retires what it covers. -/
  | cursor (d : Driver) (slot : SlotId) (through : Nat) :
      Step sizes ownSlot d { d with link := (d.link.retireThrough slot through).1 }
  /-- The session is resumed at a replacement relay. -/
  | rehome (d : Driver) (connection : Connection) : Step sizes ownSlot d (d.rehome sizes connection)
  /-- The session is resumed at the same relay. -/
  | sameRelay (d : Driver) (connection : Connection) : Step sizes ownSlot d (d.resumeSameRelay sizes connection)
  /-- The staged turns are sent, as far as the control stream takes them. -/
  | drain (d : Driver) (sends : Payload → Bool) :
      Step sizes ownSlot d
        { d with
            state.pendingControlRedivert := redivertPendingControl sends d.state.pendingControlRedivert }

end RallyPoint.Client
