import RallyPoint.Proto.Commands
import RallyPoint.Relay.Maker.State

/-!
# `Relay.Maker.Sync` — observing the checksums of a session

The model of `relay/src/consensus/maker/sync.rs`: a turn's checksum is parsed, put in its origin's order,
and every turn that is ready is compared. A verdict interrupts the draining; the queued tail waits for
the next observation.
-/

namespace RallyPoint.Relay

open Lib Proto

def syncCommand : UInt8 := 0x37

def syncCommandLen : Nat := 7

/-- The ring, the kind and the `hash16` of a checksum command. The bytes after them are not read. -/
def readSyncCommand (command : List UInt8) : SyncCommand :=
  let tag := command.getD 1 0
  { ring := (tag >>> 4).toNat, kind := (tag &&& 0x0F).toNat, value := (command.getD 2 0, command.getD 3 0) }

/-- The walk of `parse_sync`. Only the first checksum counts; the rest of the walk is for a log line. -/
def parseSyncFrom : Nat → List UInt8 → Option SyncCommand
  | 0, _ => none
  | fuel + 1, buf =>
    match commandLength buf with
    | none => none
    | some len =>
      if len = 0 ∨ buf.length < len then none
      else if buf.head? = some syncCommand ∧ len = syncCommandLen then some (readSyncCommand (buf.take len))
      else parseSyncFrom fuel (buf.drop len)

/-- Every command takes a byte or more, so the walk is over after `commands.length` of them. -/
def parseSync (commands : List UInt8) : Option SyncCommand := parseSyncFrom commands.length commands

/-- What one observation returned, and the turns it consumed, each with its seq. -/
structure SyncObserved where
  divergence : Option SyncDivergence
  consumed : List (Nat × SyncTurn)

namespace DecisionMaker

variable (m : DecisionMaker) (slot : SlotId)

def compareSyncTurn (turn : SyncTurn) : DecisionMaker × Option SyncDivergence :=
  if m.authority ≠ .selfRelay ∨ m.departed slot then (m, none)
  else
    let m := if syncAbsurdBufferMax ≤ m.bounds.max then { m with sync := m.sync.disableForAbsurdBounds } else m
    if m.sync.dormant then (m, none)
    else match turn.command, turn.ordinal with
      | some command, some ordinal =>
        let (sync, divergence) := m.sync.record slot ordinal ⟨command.value, command.kind, turn.frame⟩ turn.skipped
          (syncEvalMargin m.bounds.max)
        ({ m with sync }, divergence)
      | _, _ => (m, none)

/-- What `push` or `pop_ready` left, with the seq the next turn to consume has. -/
abbrev Ready := Nat × Except SyncOrderingFailure (Option SyncTurn)

/-- `pop_ready`, on the maker. -/
def popSyncTurn : DecisionMaker × Ready :=
  let (syncTurns, result) := m.syncTurns.popReady slot
  ({ m with syncTurns }, (m.syncTurns.entry slot).next, result)

/-- The draining loop of `observe_sync_with_generation`. Each round takes a turn off the slot's queue. -/
def drainSync (slot : SlotId) : Nat → DecisionMaker → Ready → DecisionMaker × SyncObserved
  | _, m, (_, .ok none) => (m, ⟨none, []⟩)
  | _, m, (_, .error _) => ({ m with sync := m.sync.removeMember slot }, ⟨none, []⟩)
  | 0, m, (seq, .ok (some turn)) =>
    let (m, divergence) := m.compareSyncTurn slot turn
    (m, ⟨divergence, [(seq, turn)]⟩)
  | fuel + 1, m, (seq, .ok (some turn)) =>
    match m.compareSyncTurn slot turn with
    | (m, some divergence) => (m, ⟨some divergence, [(seq, turn)]⟩)
    | (m, none) =>
      let (m, ready) := m.popSyncTurn slot
      let (m, rest) := drainSync slot fuel m ready
      (m, { rest with consumed := (seq, turn) :: rest.consumed })

def observeSyncWithGeneration (seq : Nat) (gameFrame : Option U32)
    (commands : List UInt8) (syncGeneration : Option U64) : DecisionMaker × SyncObserved :=
  if slot ∈ m.observers ∨ m.rollbackEnabled then (m, ⟨none, []⟩)
  else if m.syncTurns.unavailable slot then (m, ⟨none, []⟩)
  else
    let turn : SyncTurn := ⟨gameFrame, none, parseSync commands, syncGeneration, none⟩
    let (syncTurns, result) := m.syncTurns.push slot seq turn
    let m := { m with syncTurns }
    let (m, ready) := match result with
      | .ok none => m.popSyncTurn slot
      | result => (m, (seq, result))
    drainSync slot (m.syncTurns.entry slot).pending.size m ready

end DecisionMaker

end RallyPoint.Relay
