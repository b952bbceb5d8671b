import RallyPoint.Relay.Maker.State
import RallyPoint.Relay.Seen

/-!
# `Relay.Maker.Leave` — departures and synced leaves

The model of `relay/src/consensus/maker/departure.rs` and `maker/leave.rs`, with
`normalize_observed_leave` of `registry/leave.rs`: what is recorded of a slot that left, when its leave
is decided and what the directive carries, and the sealing of a drop before its turns are counted. Every
leave is cached through `cacheLeave`.
-/

namespace RallyPoint.Relay

open Lib

/-- A dropped leave's count stands only with the proof, in a session that runs the proof. -/
def normalizeObservedLeave (leave : LeaveDirective) (finalizedDropsEnabled : Bool) : LeaveDirective :=
  if leave.reason = leaveReasonDropped ∧ (leave.finalTurnCount.isSome ∨ leave.finalized) ∧
      ¬ (leave.finalized ∧ finalizedDropsEnabled) then
    { leave with finalTurnCount := none, finalized := false }
  else leave

/-- The larger of two frames, or the one there is. -/
def newerFrame : Option Nat → Option Nat → Option Nat
  | some a, some b => some (max a b)
  | a, b => a <|> b

/-- Raise a state's frame to `frame`. -/
def SlotState.raise (state : SlotState) : Option Nat → SlotState
  | some frame => if state.frame.all (· < frame) then { state with frame := some frame } else state
  | none => state

def leaveBaseFrame (slotLast session : Option Nat) : Option Nat := slotLast <|> session

/-- The answer of a home relay to a drop's finalization. -/
inductive FinalizeOutcome where
  | finalized (finalTurnCount : Nat)
  | rejectedLive
  | rejectedNoCursor
deriving DecidableEq

inductive DepartureKind where
  | left
  | dropped
deriving DecidableEq

/-- A departure the coordinator seeds into a resumed session. -/
structure DepartedSlot where
  slot : SlotId
  kind : DepartureKind
  finalTurnCount : Option Nat
  finalized : Bool

/-- The reason a seeded departure is recorded with. -/
def DepartedSlot.reason (d : DepartedSlot) : Nat :=
  match d.kind with
  | .dropped => leaveReasonDropped
  | .left => leaveReasonLeft

namespace DecisionMaker

variable (m : DecisionMaker) (slot : SlotId) (stamps : DepartureStamps) (reason : Nat)

/-! ## Departure records -/

/-- The record after one more departure: the first value of each field stands, frames take the newer one. -/
def mergedDeparture (existing : Option Departure) (stamps : DepartureStamps) (reason : Nat)
    (connectionEpoch : Option Nat) (slotState : Option SlotState) : Departure :=
  let merged := newerFrame stamps.lastFrame (slotState.bind (·.frame))
  let slotState := slotState.map (·.raise merged)
  match existing with
  | some record =>
    let lastFrame := newerFrame record.lastFrame merged
    { record with
        lastFrame := lastFrame
        slotState := (record.slotState <|> slotState).map (·.raise lastFrame)
        reachableFrame := record.reachableFrame <|> stamps.reachableFrame
        result := record.result <|> stamps.result
        finalTurnCount := record.finalTurnCount <|> stamps.finalTurnCount
        finalized := record.finalized || stamps.finalized
        connectionEpoch := record.connectionEpoch <|> connectionEpoch }
  | none =>
    { lastFrame := merged
      slotState := slotState
      reachableFrame := stamps.reachableFrame
      reason := reason
      result := stamps.result
      finalTurnCount := stamps.finalTurnCount
      finalized := stamps.finalized
      connectionEpoch }

/-- The slot's live state moves into its departure record. -/
def noteDeparture (connectionEpoch : Option Nat) : DecisionMaker :=
  let stamps := { stamps with result := stamps.result.filter fun echo => resultPayloadIsValid echo.payload }
  { m with
      slots := m.slots.erase slot
      departures :=
        m.departures.insert slot (mergedDeparture (m.departures.get? slot) stamps reason connectionEpoch (m.slots.get? slot))
      sync := m.sync.removeMember slot
      liveSlots := m.liveSlots.erase slot }

def recordDeparture : DecisionMaker :=
  m.noteDeparture slot stamps reason none

def mergeTerminalDeparture : DecisionMaker :=
  m.noteDeparture slot stamps reason none

/-- Whether the departure is of the slot's newest generation, which is then down. -/
def markConnectionDown (observed : Option Nat) : DecisionMaker × Bool :=
  let down (epoch : Nat) := { m with connectionStates := m.connectionStates.insert slot (.down epoch) }
  match m.connectionStates.get? slot, observed with
  | none, none => (m, true)
  | none, some epoch => (down epoch, true)
  | some (.up current), some epoch => if current = epoch then (down epoch, true) else (m, false)
  | some (.down current), some epoch => (m, decide (current = epoch))
  | some _, none => (m, false)

def recordDepartureForEpoch (connectionEpoch : Option Nat) : DecisionMaker × Bool :=
  match m.markConnectionDown slot connectionEpoch with
  | (m, true) => (m.noteDeparture slot stamps reason connectionEpoch, true)
  | (m, false) => (m, false)

/-! ## Deciding a leave -/

/-- The directive enters the cache. -/
def cacheLeave (directive : LeaveDirective) : DecisionMaker :=
  { m with decidedLeaves := m.decidedLeaves.insert slot directive }

/-- The next leave this relay authors. -/
def authorLeave (directive : LeaveDirective) : DecisionMaker × Option LeaveDirective :=
  let directive := { directive with leaveSeq := m.nextLeaveSeq + 1 }
  ({ m with nextLeaveSeq := m.nextLeaveSeq + 1 }.cacheLeave slot directive, some directive)

/-- Whether a leave of the slot for `reason` carries the finalization proof. -/
def provenDrop : Bool :=
  decide (reason = leaveReasonDropped) && (m.departures.get? slot).any fun d => d.finalized && d.finalTurnCount.isSome

/-- The count a leave of the slot for `reason` carries. -/
def leaveCount : Option Nat :=
  let recorded := (m.departures.get? slot).bind (·.finalTurnCount)
  if reason = leaveReasonDropped then
    if m.provenDrop slot reason then recorded else none
  else if m.resumed then none
  else recorded

/-- The frame a leave of the slot applies at; `none` holds it. -/
def applyFrame (finalTurnCount : Option Nat) : Option Nat :=
  let record := m.departures.get? slot
  let slotLast := record.bind (·.lastFrame)
  let reachable := record.bind (·.reachableFrame)
  match leaveBaseFrame slotLast m.sessionFrame with
  | some base =>
    let base := match slotLast, reachable with
      | some _, some ceiling => min base ceiling
      | _, _ => base
    some (saturatingAdd u32Max base 1)
  | none => if finalTurnCount.isSome ∧ m.gameUnderway then some 0 else none

/-- The leave the slot's record gives for `reason`. -/
def recordedLeave (reason applyAtFrame : Nat) : LeaveDirective where
  slot := slot.toWire
  reason := reason
  applyAtFrame := applyAtFrame
  leaveSeq := 0
  finalTurnCount := m.leaveCount slot reason
  finalized := m.provenDrop slot reason

def commitLeave : DecisionMaker × Option LeaveDirective :=
  if m.leaveDecided slot then (m, none)
  else match m.applyFrame slot (m.leaveCount slot reason) with
    | none => (m, none)
    | some applyAtFrame => m.authorLeave slot (m.recordedLeave slot reason applyAtFrame)

def decideLeave : DecisionMaker × Option LeaveDirective :=
  let m := m.noteDeparture slot {} reason none
  if m.authority ≠ .selfRelay then (m, none) else m.commitLeave slot reason

/-- Decided whatever the authority, at frame 0 when nothing else is known. -/
def forceDecideLeave : DecisionMaker × Option LeaveDirective :=
  let m := m.noteDeparture slot {} reason none
  match m.commitLeave slot reason with
  | (m, some directive) => (m, some directive)
  | (m, none) =>
    if m.leaveDecided slot then (m, none) else m.authorLeave slot (m.recordedLeave slot reason 0)

/-- The first directive of a slot stands. -/
def observeLeave (leave : LeaveDirective) : DecisionMaker × Bool :=
  let leave := normalizeObservedLeave leave m.finalizedDropsEnabled
  match SlotId.ofWire leave.slot with
  | none => (m, false)
  | some slot =>
    let inserted := !m.leaveDecided slot
    let m := if inserted then m.cacheLeave slot leave else m
    let m := { m with nextLeaveSeq := max m.nextLeaveSeq leave.leaveSeq }
    if inserted then
      let m := match m.connectionStates.get? slot with
        | some (.up epoch) => { m with connectionStates := m.connectionStates.insert slot (.down epoch) }
        | _ => m
      (m.noteDeparture slot { result := m.results.get? slot, finalTurnCount := leave.finalTurnCount }
        leave.reason none, true)
    else (m, false)

/-- Whether a seeded departure keeps its finalization proof. -/
def seedFinalized (d : DepartedSlot) : Bool := decide (d.kind = .dropped) && d.finalized && m.finalizedDropsEnabled

/-- The count a seeded departure keeps. -/
def seedCount (d : DepartedSlot) : Option Nat :=
  if d.kind = .dropped ∧ !m.seedFinalized d then none else d.finalTurnCount

/-- The leave a seeded departure gives. -/
def seededLeave (d : DepartedSlot) : LeaveDirective where
  slot := d.slot.toWire
  reason := d.reason
  applyAtFrame := saturatingAdd u32Max (m.sessionFrame.getD 0) 1
  leaveSeq := 0
  finalTurnCount := m.seedCount d
  finalized := m.seedFinalized d && (m.seedCount d).isSome

def seedDeparted (d : DepartedSlot) : DecisionMaker × Option LeaveDirective :=
  let m := m.noteDeparture d.slot { finalTurnCount := m.seedCount d, finalized := m.seedFinalized d } d.reason none
  if m.leaveDecided d.slot then (m, none) else m.authorLeave d.slot (m.seededLeave d)

def seedResumed (departed : List DepartedSlot) : DecisionMaker × List LeaveDirective :=
  let (m, seeded) := departed.foldl
    (fun (m, seeded) d =>
      let (m, directive) := m.seedDeparted d
      (m, seeded ++ directive.toList)) (m, [])
  ({ m with started := true, resumed := true }, seeded)

def recordResult (echo : ResultEcho) : DecisionMaker × Bool :=
  if !resultPayloadIsValid echo.payload then (m, false)
  else if (m.results.get? slot).isSome then (m, false)
  else ({ m with results := m.results.insert slot echo }, true)

/-! ## Coming back, and being sealed -/

/-- An undecided departure is discarded and its state restored. -/
def reinstateSlot : DecisionMaker × Bool :=
  if m.leaveDecided slot then (m, false)
  else match m.departures.get? slot with
    | none => (m, false)
    | some departure =>
      let state := (departure.slotState.getD .empty).raise departure.lastFrame
      ({ m with departures := m.departures.erase slot, slots := m.slots.insert slot state }, true)

def departureEpoch : Option Nat := (m.departures.get? slot).bind (·.connectionEpoch)

def countedLeaveSchedulable : Bool :=
  m.gameUnderway || m.sessionFrame.isSome || ((m.departures.get? slot).bind (·.lastFrame)).isSome

/-- The slot's generation is sealed against admission, or the request is answered. -/
def sealForFinalize (requestedEpoch : Option Nat) : DecisionMaker × Option FinalizeOutcome :=
  match m.decidedLeaves.get? slot with
  | some decided =>
    (m, some (match decided.finalized, decided.finalTurnCount with
      | true, some finalTurnCount => .finalized finalTurnCount
      | _, _ => .rejectedLive))
  | none =>
    if m.connectionIsUp slot then (m, some .rejectedLive)
    else if m.departureEpoch slot ≠ requestedEpoch then (m, some .rejectedLive)
    else if slot ∈ m.rehomedHomes then (m, some .rejectedNoCursor)
    else if !m.countedLeaveSchedulable slot then (m, some .rejectedNoCursor)
    else ({ m with finalizingDrops := insert slot m.finalizingDrops }, none)

def homeForwardedNothing : Bool :=
  m.strictlyHomes slot && decide (slot ∉ m.rehomedHomes) && decide (slot ∉ m.forwardedSlots) &&
    (m.departures.get? slot).any (·.lastFrame.isNone)

/-- The count a reading of the forward gate proves. -/
def provenCount : ForwardGateReading → Option Nat
  | .count count => some count
  | .neverForwarded => if m.homeForwardedNothing slot then some 0 else none
  | .unsound => none

/-- A proven count is stamped; without one the seal is lifted. -/
def finishFinalize (reading : ForwardGateReading) : DecisionMaker × FinalizeOutcome :=
  match m.provenCount slot reading with
  | some finalTurnCount =>
    (m.noteDeparture slot { finalTurnCount := some finalTurnCount, finalized := true }
      leaveReasonDropped none, .finalized finalTurnCount)
  | none =>
    ({ m with finalizingDrops := m.finalizingDrops.erase slot }, .rejectedNoCursor)

/-- Seal, read the gate, finish. -/
def finalizeDrop (requestedEpoch : Option Nat) (reading : ForwardGateReading) : DecisionMaker × FinalizeOutcome :=
  match m.sealForFinalize slot requestedEpoch with
  | (m, some outcome) => (m, outcome)
  | (m, none) => m.finishFinalize slot reading

end DecisionMaker

end RallyPoint.Relay
