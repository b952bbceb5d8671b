import RallyPoint.Relay.Maker.State

/-!
# `Relay.Session.Journal` — the journal of provisional ingress

The model of `relay/src/session/provisional_turns/mod.rs`. While a session has no descriptor, what its
clients send is deposited here in arrival order. The descriptor then drains the journal batch by batch: a
session goes from gathering to draining to resolved, and the turns of the batch that is being replayed
stay visible as **in flight** until the next one is asked for.

`SessionPen` is one session's state with the operations on it. The ceilings that all sessions of a relay
share are a flag of the deposit. Every call runs under the journal's lock, so calls are serial.
-/

namespace RallyPoint.Relay

open Lib

/-- The most turns one session queues. -/
def perSessionCap : Nat := 4096

/-- `lobby::LOG_MAX_COMMANDS`. -/
def lobbyLogMaxCommands : Nat := 1024

/-- `lobby::LOG_MAX_BYTES`. -/
def lobbyLogMaxBytes : Nat := 256 * 1024

/-- A lobby command, with the author the relay stamped. -/
structure LobbyCommand where
  slot : U32
  payload : List UInt8
  seq : Option U64
deriving DecidableEq

/-- One deposited ingress effect. -/
inductive PennedIngress where
  | turn (slot : SlotId) (payload : Payload)
  | lobby (slot : SlotId) (command : LobbyCommand)
  | gameStarted (slot : SlotId)
  | departure (slot : SlotId) (reason : Nat) (connectionEpoch : Option Nat) (revision : Nat)
deriving DecidableEq

namespace PennedIngress

/-- The `(slot, seq)` of a turn. -/
def turnIdentity : PennedIngress → Option (SlotId × Nat)
  | turn slot payload => some (slot, payload.seq)
  | _ => none

/-- Whether the entry is a departure of `slot`. -/
def isDepartureOf (slot : SlotId) : PennedIngress → Bool
  | departure s _ _ _ => decide (s = slot)
  | _ => false

end PennedIngress

def turnIdentities (batch : List PennedIngress) : List (SlotId × Nat) := batch.filterMap (·.turnIdentity)

/-- What became of a deposit. The refusals hand the entry back. -/
inductive HoldOutcome where
  | held
  | resolved (entry : PennedIngress)
  | overflow (entry : PennedIngress)

/-! ## One session -/

/-- Where a session's drain stands. -/
inductive SessionPen.Phase where
  | gathering (queue : List PennedIngress)
  | draining (queue : List PennedIngress)
  | resolved
deriving DecidableEq

namespace SessionPen.Phase

/-- The entries that await a drain. -/
def queue : Phase → List PennedIngress
  | gathering queue => queue
  | draining queue => queue
  | resolved => []

/-- The same phase with another queue; a resolved session has none. -/
def withQueue (queue : List PennedIngress) : Phase → Phase
  | gathering _ => gathering queue
  | draining _ => draining queue
  | resolved => resolved

end SessionPen.Phase

/-- What one slot's lobby commands have used, over the whole session. -/
structure LobbyUsage where
  count : Nat
  bytes : Nat

structure SessionPen where
  phase : SessionPen.Phase
  /-- Slots that admission refuses. -/
  sealed : Finset SlotId
  /-- Each slot's current departure revision. -/
  departureRevisions : SlotId → Option Nat
  /-- The turns of the batch a drain holds privately. -/
  inFlightTurns : List (SlotId × Nat)
  turnCount : Nat
  lobbyUsage : SlotId → LobbyUsage
  startedSlots : Finset SlotId

namespace SessionPen

variable (pen : SessionPen)

def gathering : SessionPen := ⟨.gathering [], ∅, fun _ => none, [], 0, fun _ => ⟨0, 0⟩, ∅⟩

/-- `queue.push_back(entry)`. -/
def enqueue (entry : PennedIngress) : SessionPen :=
  { pen with phase := pen.phase.withQueue (pen.phase.queue ++ [entry]) }

/-- A refused deposit seals its slot. -/
def sealSlot (slot : SlotId) : SessionPen := { pen with sealed := insert slot pen.sealed }

/-- The part of `hold` about a session that is not resolved. -/
def deposit (overBudget : Bool) (entry : PennedIngress) : SessionPen × HoldOutcome :=
  match entry with
  | .turn slot _ =>
    if perSessionCap ≤ pen.turnCount ∨ overBudget then (pen.sealSlot slot, .overflow entry)
    else (enqueue { pen with turnCount := pen.turnCount + 1 } entry, .held)
  | .lobby slot command =>
    let usage := pen.lobbyUsage slot
    if lobbyLogMaxCommands ≤ usage.count ∨
        lobbyLogMaxBytes < saturatingAdd u64Max usage.bytes command.payload.length ∨ overBudget then
      (pen.sealSlot slot, .overflow entry)
    else
      let used : LobbyUsage := ⟨usage.count + 1, usage.bytes + command.payload.length⟩
      (enqueue { pen with lobbyUsage := Function.update pen.lobbyUsage slot used } entry, .held)
  | .gameStarted slot =>
    -- a repeated start report is answered as held and leaves nothing
    if slot ∈ pen.startedSlots then (pen, .held)
    else (enqueue { pen with startedSlots := insert slot pen.startedSlots } entry, .held)
  | .departure slot reason epoch _ =>
    let revision := (pen.departureRevisions slot).getD 0 + 1
    let kept := pen.phase.queue.filter fun queued => !queued.isDepartureOf slot
    (enqueue { pen with
        sealed := if reason = leaveReasonLeft then insert slot pen.sealed else pen.sealed
        departureRevisions := Function.update pen.departureRevisions slot (some revision)
        phase := pen.phase.withQueue kept } (.departure slot reason epoch revision), .held)

/-- `hold`, on the session's own state. -/
def hold (overBudget : Bool) (entry : PennedIngress) : SessionPen × HoldOutcome :=
  match pen.phase with
  | .resolved => (pen, .resolved entry)
  | _ => pen.deposit overBudget entry

/-- Take what was gathered. -/
def beginDrain : Option (SessionPen × List PennedIngress) :=
  match pen.phase with
  | .gathering batch =>
    some ({ pen with phase := .draining [], turnCount := 0, inFlightTurns := turnIdentities batch }, batch)
  | _ => none

/-- The batch taken before is done. Take what was deposited meanwhile; with nothing there the session is
    resolved. -/
def continueDrain : SessionPen × Option (List PennedIngress) :=
  match pen.phase with
  | .draining [] => ({ pen with inFlightTurns := [], phase := .resolved }, none)
  | .draining batch =>
    ({ pen with phase := .draining [], turnCount := 0, inFlightTurns := turnIdentities batch }, some batch)
  | _ => ({ pen with inFlightTurns := [] }, none)

/-- The slot's turns that are queued or in flight. -/
def heldTurnSeqs (slot : SlotId) : List Nat :=
  ((turnIdentities pen.phase.queue ++ pen.inFlightTurns).filter fun t => t.1 = slot).map (·.2)

end SessionPen

end RallyPoint.Relay
