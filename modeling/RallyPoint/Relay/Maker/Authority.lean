import RallyPoint.Relay.Maker.Connection

/-!
# `Relay.Maker.Authority` — frames, authority and the shape of the session

The model of `relay/src/consensus/maker/authority.rs`, `maker/homing.rs`, `maker/session_start.rs` and
`maker/eviction.rs`: the frames observed on turns, the ceiling they give a leave, the handoff of
authority with the leaves it re-broadcasts, and the slot sets a descriptor supplies.
-/

namespace RallyPoint.Relay

open Lib

namespace DecisionMaker

variable (m : DecisionMaker) (slot : SlotId)

/-! ## Frames -/

def observeFrame (frame : Nat) : DecisionMaker :=
  if m.departed slot then m
  else { m with slots := m.slots.insert slot (((m.slots.get? slot).getD .empty).raise (some frame)) }

/-- The history with one more framed turn, by seq; the first stamp of a seq stands. -/
def insertFramed (seq frame : Nat) : List (Nat × Nat) → List (Nat × Nat)
  | [] => [(seq, frame)]
  | e :: rest =>
    if seq < e.1 then (seq, frame) :: e :: rest
    else if seq = e.1 then e :: rest
    else e :: insertFramed seq frame rest

/-- `observe_turn_frame`, with the prior frame of a regression it reports. -/
def observeTurnFrame (seq frame : Nat) : DecisionMaker × Option Nat :=
  if m.departed slot then (m, none)
  else
    let cap := max (m.bounds.max + 4) 8
    let state := (m.slots.get? slot).getD .empty
    let regression := match state.newestFramedSeq, state.frame with
      | some newest, some prior =>
        if newest < seq ∧ frame < prior ∧ !state.frameRegressionReported then some prior else none
      | _, _ => none
    let history := insertFramed seq frame state.frameHistory
    let state : SlotState := {
      frame := (state.raise (some frame)).frame
      -- the oldest entries go when there are more than `cap`
      frameHistory := history.drop (history.length - cap)
      newestFramedSeq := newerFrame state.newestFramedSeq (some seq)
      frameRegressionReported := state.frameRegressionReported || regression.isSome }
    ({ m with slots := m.slots.insert slot state }, regression)

/-- The frame a survivor has provably executed by the turn `threshold`, else its first framed one. -/
def executedFrame (threshold : Nat) (history : List (Nat × Nat)) : Option Nat :=
  ((history.filter (·.1 ≤ threshold)).map (·.2)).max? <|> history.head?.map (·.2)

/-- The least frame the survivors have provably executed. -/
def reachableFrame (departing : SlotId) : Option Nat := do
  let survivors := (m.slots.entries.filter (·.1 ≠ departing)).map (·.2.frameHistory)
  let frontier ← (survivors.filterMap fun history => history.getLast?.map (·.1)).max?
  (survivors.filterMap (executedFrame (frontier - m.bounds.max))).min?

/-! ## Authority -/

/-- The departures a promotion decides, in the order its map is iterated. -/
def toDerive (held : Finset SlotId) (order : List SlotId) : List (SlotId × Nat) :=
  order.filterMap fun slot =>
    match m.departures.get? slot with
    | some departure => if !m.leaveDecided slot ∧ slot ∉ held then some (slot, departure.reason) else none
    | none => none

/-- Every cached leave, and the undecided departures decided afresh. -/
def drainHandoffLeaves (held : Finset SlotId) (order : List SlotId) :
    DecisionMaker × List LeaveDirective × List LeaveDirective :=
  let cached := m.decidedLeaves.values
  let (m, fresh) := (m.toDerive held order).foldl
    (fun (m, fresh) d =>
      let (m, directive) := m.decideLeave d.1 d.2
      (m, fresh ++ directive.toList)) (m, [])
  (m, cached ++ fresh, fresh)

/-- `set_authority`. A promotion starts the comparator afresh and drains the handoff. -/
def setAuthority (authority : Authority) (held : Finset SlotId) (order : List SlotId) :
    DecisionMaker × List LeaveDirective × List LeaveDirective :=
  if m.authority = authority then (m, [], [])
  else if m.authority = .peer ∧ authority = .selfRelay then
    { m with authority, sync := .empty }.drainHandoffLeaves held order
  else ({ m with authority }, [], [])

/-- `sync`: bounds and authority of a re-pushed descriptor. -/
def syncDescriptor (bounds : BufferBounds) (authority : Authority) (held : Finset SlotId)
    (order : List SlotId) : DecisionMaker × List LeaveDirective × List LeaveDirective :=
  { m with bounds }.setAuthority authority held order

/-! ## The shape of the session -/

def setObservers (observers : Finset SlotId) : DecisionMaker :=
  { m with sync := (SlotId.sorted observers).foldl SyncTracker.removeMember m.sync, observers }

def setExpectedSlots (expected : Finset SlotId) : DecisionMaker := { m with expectedSlots := expected }

def setHomedSlots (homed : Finset SlotId) : DecisionMaker := { m with homedSlots := homed }

def rehomeHomedSlots (homed : Finset SlotId) : DecisionMaker :=
  { m with rehomedHomes := m.rehomedHomes ∪ homed \ m.homedSlots }.setHomedSlots homed

def markHomesRehomed : DecisionMaker := { m with rehomedHomes := m.homedSlots }

def latchRollback (enabled : Bool) : DecisionMaker := { m with rollbackEnabled := enabled }

def latchFinalizedDrops (enabled : Bool) : DecisionMaker := { m with finalizedDropsEnabled := enabled }

def noteSlotStarted : DecisionMaker := { m with startedSlots := insert slot m.startedSlots }

def notePeerSlotStarted : DecisionMaker := { m with peerStartedSlots := insert slot m.peerStartedSlots }

def noteHomeTurnForwarded : DecisionMaker := { m with forwardedSlots := insert slot m.forwardedSlots }

/-- Whether every expected slot is live for the first time. -/
def maybeStart : DecisionMaker × Bool :=
  if m.started ∨ m.authority ≠ .selfRelay ∨ m.expectedSlots = ∅ then (m, false)
  else if m.expectedSlots ⊆ m.liveSlots then ({ m with started := true }, true)
  else (m, false)

def noteSlotPresent : DecisionMaker × Bool :=
  if m.departed slot ∨ m.leaveDecided slot then (m, false)
  else { m with liveSlots := insert slot m.liveSlots }.maybeStart

def markStarted : DecisionMaker := { m with started := true }

/-- The first cause stands. -/
def markEvicted (cause : EvictionCause) : DecisionMaker :=
  { m with evictions := m.evictions.insert slot ((m.evictions.get? slot).getD cause) }

end DecisionMaker

end RallyPoint.Relay
