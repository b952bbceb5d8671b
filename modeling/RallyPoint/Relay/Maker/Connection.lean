import RallyPoint.Relay.Maker.Leave

/-!
# `Relay.Maker.Connection` — connection generations

The model of `relay/src/consensus/maker/connection.rs`: which generation of a slot's link is current,
which are retired, and how a reconnect is admitted. Of the condition reports only what they do to the
slots and the generations is kept.
-/

namespace RallyPoint.Relay

open Lib

/-- How an observed generation relates to the known one. -/
inductive ConnectionActivation where
  | current
  | replacement
  | rejected
deriving DecidableEq

inductive ReconnectAdmission where
  | admitted (reinstated : Bool)
  | rejected
deriving DecidableEq

/-- What a connection-up event resolved to. -/
structure ReconnectTransition where
  admission : ReconnectAdmission
  consumeHold : Bool

namespace DecisionMaker

variable (m : DecisionMaker) (slot : SlotId) (observed : Option Nat) (conditions : List SlotConditions)

def connectionActivation : ConnectionActivation :=
  if m.leaveDecided slot then .rejected
  else if observed.any (· ∈ m.retiredConnectionEpochs slot) then .rejected
  else if m.departed slot ∧ (m.connectionStates.get? slot).isNone ∧ observed.isNone then .replacement
  else match m.connectionStates.get? slot, observed with
    | none, none => .current
    | none, some _ => .replacement
    | some (.up current), some epoch => if current = epoch then .current else .replacement
    | some (.down current), some epoch => if current = epoch then .rejected else .replacement
    | some _, none => .rejected

/-- The generation becomes the slot's current one, and the one it replaces is retired. -/
def activateConnectionEpoch (epoch : Nat) : DecisionMaker × Bool :=
  if m.departed slot ∨ m.leaveDecided slot then (m, false)
  else if epoch ∈ m.retiredConnectionEpochs slot then (m, false)
  else if m.connectionStates.get? slot = some (.up epoch) then (m, true)
  else if m.connectionStates.get? slot = some (.down epoch) then (m, false)
  else
    let retired := match m.connectionStates.get? slot with
      | some superseded => insert superseded.epoch (m.retiredConnectionEpochs slot)
      | none => m.retiredConnectionEpochs slot
    ({ m with
        retiredConnectionEpochs := Function.update m.retiredConnectionEpochs slot retired
        connectionStates := m.connectionStates.insert slot (.up epoch) }, true)

def admitConnectionUp : DecisionMaker × Bool :=
  if m.departed slot ∨ m.leaveDecided slot then (m, false)
  else match observed with
    | some epoch => m.activateConnectionEpoch slot epoch
    | none => (m, (m.connectionStates.get? slot).isNone)

def resolveReconnectWith (holdPending : Bool) : DecisionMaker × ReconnectTransition :=
  if m.leaveDecided slot then (m, ⟨.rejected, holdPending⟩)
  else if (m.evictions.get? slot).isSome then (m, ⟨.rejected, false⟩)
  else if slot ∈ m.finalizingDrops then (m, ⟨.rejected, false⟩)
  else if m.connectionActivation slot observed = .rejected then (m, ⟨.rejected, false⟩)
  else if m.departed slot ∧ !holdPending then (m, ⟨.rejected, false⟩)
  else
    let reinstated := m.departed slot
    let (m, restored) := if reinstated then m.reinstateSlot slot else (m, true)
    if !restored then (m, ⟨.rejected, holdPending⟩)
    else
      let (m, admitted) := m.admitConnectionUp slot observed
      (m, ⟨if admitted then .admitted reinstated else .rejected, holdPending⟩)

def activateLocalEpochs : DecisionMaker :=
  conditions.foldl (fun m c =>
    match SlotId.ofWire c.slot, c.connectionEpoch with
    | some slot, some epoch =>
      if ¬ m.departed slot ∧ ¬ m.leaveDecided slot then (m.activateConnectionEpoch slot epoch).1 else m
    | _, _ => m) m

/-- Whether a condition report is of the slot's current generation. -/
def conditionCurrent : Bool :=
  match m.connectionStates.get? slot, observed with
  | some (.up current), some epoch => decide (current = epoch)
  | none, none => true
  | _, _ => false

/-- `ingest_slots`, as far as it creates slots. -/
def ingestSlots : DecisionMaker :=
  conditions.foldl (fun m c =>
    match SlotId.ofWire c.slot with
    | some slot =>
      if m.departed slot ∨ !m.conditionCurrent slot (c.connectionEpoch.map Fin.val) then m
      else { m with slots := m.slots.insert slot ((m.slots.get? slot).getD .empty) }
    | none => m) m

def ingestLocal : DecisionMaker :=
  (m.activateLocalEpochs conditions).ingestSlots conditions

def ingestRemote : DecisionMaker := m.ingestSlots conditions

def connectionEpochMatches (epoch : Option Nat) : Bool :=
  match m.connectionStates.get? slot, epoch with
  | some current, some observed => decide (current.epoch = observed)
  | none, none => true
  | _, _ => false

def removeSlot : DecisionMaker := { m with slots := m.slots.erase slot }

def removeSlotForEpoch (epoch : Option Nat) : DecisionMaker × Bool :=
  if m.connectionEpochMatches slot epoch then (m.removeSlot slot, true) else (m, false)

end DecisionMaker

end RallyPoint.Relay
