import RallyPoint.Relay.Sync.Tracker

/-!
# `Relay.Maker.State` — the decision maker of a session

The model of `relay/src/consensus/maker/mod.rs`: the state that leaves, departures, connection
generations, authority and desync detection share. The link measurements, the buffer law, the session
clock, evidence and delivery tracking, and wall-clock times are not part of it.

Maps and sets the source iterates are ordered here; where its iteration order can be observed, the order
is a parameter. The leave counter is a natural number: the runs considered do not overflow a `u32`.
-/

namespace RallyPoint.Relay

open Lib

def leaveReasonDropped : Nat := 0x40000006

def leaveReasonLeft : Nat := 3

/-- A synced leave, as it is cached and sent. -/
structure LeaveDirective where
  slot : U32
  reason : Nat
  applyAtFrame : Nat
  leaveSeq : Nat
  finalTurnCount : Option Nat
  finalized : Bool
deriving DecidableEq

/-- A player's end-of-game report. -/
structure ResultEcho where
  payload : List UInt8
  arrivalMs : Nat
  sessionFrame : Option Nat
  slotFrame : Option Nat

def maxGameResultPayloadLen : Nat := 4096

def resultPayloadIsValid (payload : List UInt8) : Bool :=
  !payload.isEmpty && decide (payload.length ≤ maxGameResultPayloadLen)

/-- A slot's game progress. -/
structure SlotState where
  frame : Option Nat
  /-- `(seq, frame)` of the newest framed turns, by seq. -/
  frameHistory : List (Nat × Nat)
  newestFramedSeq : Option Nat
  frameRegressionReported : Bool

/-- `SlotState::default`. -/
def SlotState.empty : SlotState := ⟨none, [], none, false⟩

/-- What a departure brings with it. -/
structure DepartureStamps where
  lastFrame : Option Nat := none
  reachableFrame : Option Nat := none
  result : Option ResultEcho := none
  finalTurnCount : Option Nat := none
  finalized : Bool := false

/-- What the relay retains about a slot that left. -/
structure Departure where
  lastFrame : Option Nat
  slotState : Option SlotState
  reachableFrame : Option Nat
  reason : Nat
  result : Option ResultEcho
  finalTurnCount : Option Nat
  finalized : Bool
  connectionEpoch : Option Nat

inductive Authority where
  | selfRelay
  | peer
deriving DecidableEq

/-- The newest generation of a slot's link. -/
inductive ConnectionState where
  | up (epoch : Nat)
  | down (epoch : Nat)
deriving DecidableEq

def ConnectionState.epoch : ConnectionState → Nat
  | up epoch => epoch
  | down epoch => epoch

inductive EvictionCause where
  | silent
  | desync
  | lobbyViolation
deriving DecidableEq

structure BufferBounds where
  min : Nat
  max : Nat

structure DecisionMaker where
  bounds : BufferBounds
  authority : Authority
  slots : OrdMap SlotId SlotState
  connectionStates : OrdMap SlotId ConnectionState
  retiredConnectionEpochs : SlotId → Finset Nat
  decidedLeaves : OrdMap SlotId LeaveDirective
  departures : OrdMap SlotId Departure
  nextLeaveSeq : Nat
  observers : Finset SlotId
  results : OrdMap SlotId ResultEcho
  sync : SyncTracker
  syncTurns : SyncTurns
  expectedSlots : Finset SlotId
  homedSlots : Finset SlotId
  liveSlots : Finset SlotId
  started : Bool
  startedSlots : Finset SlotId
  peerStartedSlots : Finset SlotId
  forwardedSlots : Finset SlotId
  evictions : OrdMap SlotId EvictionCause
  resumed : Bool
  finalizedDropsEnabled : Bool
  rollbackEnabled : Bool
  finalizingDrops : Finset SlotId
  rehomedHomes : Finset SlotId

namespace DecisionMaker

variable (m : DecisionMaker) (slot : SlotId)

def new (bounds : BufferBounds) (authority : Authority) (observers : Finset SlotId) : DecisionMaker where
  bounds := bounds
  authority := authority
  slots := .empty
  connectionStates := .empty
  retiredConnectionEpochs := fun _ => ∅
  decidedLeaves := .empty
  departures := .empty
  nextLeaveSeq := 0
  observers := observers
  results := .empty
  sync := .empty
  syncTurns := .empty
  expectedSlots := ∅
  homedSlots := ∅
  liveSlots := ∅
  started := false
  startedSlots := ∅
  peerStartedSlots := ∅
  forwardedSlots := ∅
  evictions := .empty
  resumed := false
  finalizedDropsEnabled := false
  rollbackEnabled := false
  finalizingDrops := ∅
  rehomedHomes := ∅

/-- The least frame of the live slots. -/
def sessionFrame : Option Nat := (m.slots.values.filterMap (·.frame)).min?

/-- A departure is recorded for the slot. -/
def departed : Bool := (m.departures.get? slot).isSome

def leaveDecided : Bool := (m.decidedLeaves.get? slot).isSome

def gameUnderway : Bool := decide (m.startedSlots.Nonempty ∨ m.peerStartedSlots.Nonempty)

def connectionIsUp : Bool :=
  match m.connectionStates.get? slot with
  | some (.up _) => true
  | _ => false

def strictlyHomes : Bool := decide (slot ∈ m.homedSlots)

end DecisionMaker

end RallyPoint.Relay
