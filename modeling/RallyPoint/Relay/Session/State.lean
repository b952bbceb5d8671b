import RallyPoint.Relay.Maker.Authority
import RallyPoint.Relay.Session.Presence

/-!
# `Relay.Session.State` — what a relay holds of one session

The registries of a relay, as far as they are about one session: the roster of seats
(`routing/registry.rs`), the published conditions (`mesh/conditions.rs`), the drop holds
(`session/drop_hold/mod.rs`), the decision maker, the presence entry and the forward gate. Each is behind
a lock of its own.

Two of the locks are held while another one is taken: the roster's over an announcement, the holds' over
a record or a reconnect. They are part of the state; every other section is one piece. The maker exists:
the functions that run without one are not about a session that is being served.
-/

namespace RallyPoint.Relay

open Lib

structure SessionState where
  /-- The connection generation in each seat. -/
  roster : OrdMap SlotId Nat
  rosterLocked : Bool
  /-- The generation of each slot's published conditions. -/
  conditions : OrdMap SlotId Nat
  /-- Undecided drops, with when each was first observed. -/
  holds : OrdMap SlotId Nat
  holdsLocked : Bool
  /-- How long a hold must stand before a request is honored. -/
  unlock : Nat
  maker : DecisionMaker
  presence : Option SessionPresence
  seen : SeenRegistries Unit

/-- A session with a maker, before any slot joined. -/
def SessionState.fresh (maker : DecisionMaker) (unlock : Nat) : SessionState :=
  ⟨.empty, false, .empty, .empty, false, unlock, maker, none, fun _ => none⟩

/-- What recording a departure came to. -/
inductive DepartureRecordOutcome where
  | pending
  | terminal
  | rejected
deriving DecidableEq

namespace DecisionMaker

def slotFrame (m : DecisionMaker) (slot : SlotId) : Option Nat := (m.slots.get? slot).bind (·.frame)

def recordDepartureForEpochOutcome (m : DecisionMaker) (slot : SlotId) (stamps : DepartureStamps) (reason : Nat)
    (epoch : Option Nat) : DecisionMaker × DepartureRecordOutcome :=
  if m.leaveDecided slot then (m.mergeTerminalDeparture slot stamps reason, .terminal)
  else match m.recordDepartureForEpoch slot stamps reason epoch with
    | (m, true) => (m, .pending)
    | (m, false) => (m, .rejected)

/-- `DecisionMakers::decide_abandoned_departures`, in the order the departures are iterated. -/
def decideAbandonedDepartures (m : DecisionMaker) (order : List SlotId) : DecisionMaker × List LeaveDirective :=
  (m.toDerive ∅ order).foldl (fun (m, decided) d =>
      let (m, directive) := m.forceDecideLeave d.1 d.2
      (m, decided ++ directive.toList)) (m, [])

end DecisionMaker

namespace SessionState

variable (s : SessionState) (slot : SlotId)

/-! ## Drop holds -/

def isPending : Bool := (s.holds.get? slot).isSome

/-- The first observation stands. -/
def hold (since : Nat) : SessionState :=
  if s.isPending slot then s else { s with holds := s.holds.insert slot since }

/-- `release`, with whether there was a hold to claim. -/
def release : SessionState × Bool := ({ s with holds := s.holds.erase slot }, s.isPending slot)

def pendingSlots : Finset SlotId := s.holds.keys

/-- `held_for`, as whether the hold has stood past the floor. -/
def heldPastUnlock (now : Nat) : Bool :=
  (s.holds.get? slot).any fun since => decide (s.unlock ≤ now - since)

/-! ## Seats and conditions -/

/-- The seat of the slot is taken. -/
def seated : Bool := (s.roster.get? slot).isSome

/-- `register`: `none` when the seat is taken. -/
def register (epoch : Nat) : Option SessionState :=
  if s.seated slot then none else some { s with roster := s.roster.insert slot epoch }

/-- A registration takes a free seat, and changes nothing else. -/
theorem register_eq {s s' : SessionState} {slot : SlotId} {epoch : Nat} (h : s.register slot epoch = some s') :
    s.seated slot = false ∧ s' = { s with roster := s.roster.insert slot epoch } := by
  unfold register at h
  split at h
  · cases h
  · rename_i hseat
    exact ⟨by simpa using hseat, (Option.some.inj h).symm⟩

def deregister : SessionState := { s with roster := s.roster.erase slot }

/-- `unpublish_conditions`, with whether the generation was the published one. -/
def unpublishConditions (epoch : Nat) : SessionState × Bool :=
  if s.conditions.size = 0 then (s, true)
  else if s.conditions.get? slot = some epoch then ({ s with conditions := s.conditions.erase slot }, true)
  else (s, false)

/-! ## The maker -/

/-- The maker after a call on it. -/
def withMaker (m : DecisionMaker) : SessionState := { s with maker := m }

end SessionState

end RallyPoint.Relay
