import RallyPoint.Lib.Trace
import RallyPoint.Relay.Maker.Authority
import RallyPoint.Relay.Maker.Sync

/-!
# `Relay.Maker.Run` — runs of a decision maker

A session's maker sits behind the registry's lock, so what happens to it is a sequence of calls.
`MakerOp` is one call with its arguments, `MakerReply` what it returned. The registry's own
`finalize_drop` takes the lock twice: it is here both as one call and as its two halves, which other
calls may come between.
-/

namespace RallyPoint.Relay

open Lib

/-- One call on a session's maker. `held` and `order` are given to a promotion: the held slots, and the
    order its map of departures is iterated in. -/
inductive MakerOp where
  | observeFrame (slot : SlotId) (frame : Nat)
  | observeTurnFrame (slot : SlotId) (seq frame : Nat)
  | observeSync (slot : SlotId) (seq : Nat) (gameFrame : Option U32) (commands : List UInt8) (generation : Option U64)
  | ingestLocal (conditions : List SlotConditions)
  | ingestRemote (conditions : List SlotConditions)
  | activateConnectionEpoch (slot : SlotId) (epoch : Nat)
  | admitConnectionUp (slot : SlotId) (observed : Option Nat)
  | resolveReconnectWith (slot : SlotId) (observed : Option Nat) (holdPending : Bool)
  | markConnectionDown (slot : SlotId) (observed : Option Nat)
  | removeSlot (slot : SlotId)
  | removeSlotForEpoch (slot : SlotId) (epoch : Option Nat)
  | recordDeparture (slot : SlotId) (stamps : DepartureStamps) (reason : Nat)
  | recordDepartureForEpoch (slot : SlotId) (stamps : DepartureStamps) (reason : Nat) (epoch : Option Nat)
  | mergeTerminalDeparture (slot : SlotId) (stamps : DepartureStamps) (reason : Nat)
  | recordResult (slot : SlotId) (echo : ResultEcho)
  | decideLeave (slot : SlotId) (reason : Nat)
  | forceDecideLeave (slot : SlotId) (reason : Nat)
  | observeLeave (leave : LeaveDirective)
  | seedResumed (departed : List DepartedSlot)
  | reinstateSlot (slot : SlotId)
  | sealForFinalize (slot : SlotId) (requestedEpoch : Option Nat)
  | finishFinalize (slot : SlotId) (reading : ForwardGateReading)
  | finalizeDrop (slot : SlotId) (requestedEpoch : Option Nat) (reading : ForwardGateReading)
  | setAuthority (authority : Authority) (held : Finset SlotId) (order : List SlotId)
  | syncDescriptor (bounds : BufferBounds) (authority : Authority) (held : Finset SlotId) (order : List SlotId)
  | setObservers (observers : Finset SlotId)
  | setExpectedSlots (expected : Finset SlotId)
  | setHomedSlots (homed : Finset SlotId)
  | rehomeHomedSlots (homed : Finset SlotId)
  | markHomesRehomed
  | noteSlotStarted (slot : SlotId)
  | notePeerSlotStarted (slot : SlotId)
  | noteHomeTurnForwarded (slot : SlotId)
  | noteSlotPresent (slot : SlotId)
  | maybeStart
  | markStarted
  | markEvicted (slot : SlotId) (cause : EvictionCause)

inductive MakerReply where
  | done
  | flag (accepted : Bool)
  | regression (prior : Option Nat)
  | observed (sync : SyncObserved)
  | transition (reconnect : ReconnectTransition)
  | decided (directive : Option LeaveDirective)
  | seeded (directives : List LeaveDirective)
  /-- The leaves a promotion broadcasts, and those of them it decided itself. -/
  | handoff (leaves fresh : List LeaveDirective)
  /-- `none`: sealed; otherwise the answer given at once. -/
  | sealed (refused : Option FinalizeOutcome)
  | finalize (outcome : FinalizeOutcome)

/-- The leaves the relay authored in a call. -/
def MakerReply.authored : MakerReply → List LeaveDirective
  | decided directive => directive.toList
  | seeded directives => directives
  | handoff _ fresh => fresh
  | _ => []

/-- The turns an observation consumed. -/
def MakerReply.consumed : MakerReply → List (Nat × SyncTurn)
  | observed sync => sync.consumed
  | _ => []

def MakerReply.divergence : MakerReply → Option SyncDivergence
  | observed sync => sync.divergence
  | _ => none

/-- The slots a verdict accuses. -/
def MakerReply.diverged (reply : MakerReply) : List SlotId := (reply.divergence.map (·.diverged)).getD []

namespace DecisionMaker

/-- The maker a session's first descriptor creates: two flags are latched then, and never again. -/
def create (bounds : BufferBounds) (authority : Authority) (observers : Finset SlotId) (finalizedDrops rollback : Bool) :
    DecisionMaker :=
  ((new bounds authority observers).latchFinalizedDrops finalizedDrops).latchRollback rollback

end DecisionMaker

/-- The call's effect and its reply. -/
def MakerOp.apply (m : DecisionMaker) : MakerOp → DecisionMaker × MakerReply
  | observeFrame slot frame => (m.observeFrame slot frame, .done)
  | observeTurnFrame slot seq frame => (m.observeTurnFrame slot seq frame).map id .regression
  | observeSync slot seq frame commands gen => (m.observeSyncWithGeneration slot seq frame commands gen).map id .observed
  | ingestLocal conditions => (m.ingestLocal conditions, .done)
  | ingestRemote conditions => (m.ingestRemote conditions, .done)
  | activateConnectionEpoch slot epoch => (m.activateConnectionEpoch slot epoch).map id .flag
  | admitConnectionUp slot observed => (m.admitConnectionUp slot observed).map id .flag
  | resolveReconnectWith slot observed hold => (m.resolveReconnectWith slot observed hold).map id .transition
  | markConnectionDown slot observed => (m.markConnectionDown slot observed).map id .flag
  | removeSlot slot => (m.removeSlot slot, .done)
  | removeSlotForEpoch slot epoch => (m.removeSlotForEpoch slot epoch).map id .flag
  | recordDeparture slot stamps reason => (m.recordDeparture slot stamps reason, .done)
  | recordDepartureForEpoch slot stamps reason epoch =>
    (m.recordDepartureForEpoch slot stamps reason epoch).map id .flag
  | mergeTerminalDeparture slot stamps reason => (m.mergeTerminalDeparture slot stamps reason, .done)
  | recordResult slot echo => (m.recordResult slot echo).map id .flag
  | decideLeave slot reason => (m.decideLeave slot reason).map id .decided
  | forceDecideLeave slot reason => (m.forceDecideLeave slot reason).map id .decided
  | observeLeave leave => (m.observeLeave leave).map id .flag
  | seedResumed departed => (m.seedResumed departed).map id .seeded
  | reinstateSlot slot => (m.reinstateSlot slot).map id .flag
  | sealForFinalize slot epoch => (m.sealForFinalize slot epoch).map id .sealed
  | finishFinalize slot reading => (m.finishFinalize slot reading).map id .finalize
  | finalizeDrop slot epoch reading => (m.finalizeDrop slot epoch reading).map id .finalize
  | setAuthority authority held order => (m.setAuthority authority held order).map id fun r => .handoff r.1 r.2
  | syncDescriptor bounds authority held order =>
    (m.syncDescriptor bounds authority held order).map id fun r => .handoff r.1 r.2
  | setObservers observers => (m.setObservers observers, .done)
  | setExpectedSlots expected => (m.setExpectedSlots expected, .done)
  | setHomedSlots homed => (m.setHomedSlots homed, .done)
  | rehomeHomedSlots homed => (m.rehomeHomedSlots homed, .done)
  | markHomesRehomed => (m.markHomesRehomed, .done)
  | noteSlotStarted slot => (m.noteSlotStarted slot, .done)
  | notePeerSlotStarted slot => (m.notePeerSlotStarted slot, .done)
  | noteHomeTurnForwarded slot => (m.noteHomeTurnForwarded slot, .done)
  | noteSlotPresent slot => (m.noteSlotPresent slot).map id .flag
  | maybeStart => m.maybeStart.map id .flag
  | markStarted => (m.markStarted, .done)
  | markEvicted slot cause => (m.markEvicted slot cause, .done)

namespace DecisionMaker

/-- The maker after the calls `ops`. -/
def after (m : DecisionMaker) (ops : List MakerOp) : DecisionMaker := (Trace.run MakerOp.apply m ops).1

/-- The calls with their replies. -/
def log (m : DecisionMaker) (ops : List MakerOp) : List (MakerOp × MakerReply) := (Trace.run MakerOp.apply m ops).2

end DecisionMaker

end RallyPoint.Relay
