import RallyPoint.Lib.Tasks
import RallyPoint.Relay.Session.State

/-!
# `Relay.Session.Tasks` — the relay's operations, lock by lock

Each operation of `routing/departure.rs`, `routing/drops.rs`, `mesh/dispatch.rs`,
`mesh/dispatch_finalize.rs`, `mesh/control/apply.rs`, `routing/slot_link/teardown.rs` and `server/` that
several tasks run on one session, as a program cut where it gives up its locks. A point's constructor
says which section comes next, with what the operation has read so far; `next` is that section. An
operation that calls another one has the callee's points among its own.

Frames sent to clients and peers, flight records and logs are left out, as are the closing of an emptied
session and the timer of an abandoned one.
-/

namespace RallyPoint.Relay

open Lib

/-! ## Departures -/

/-- A departure on its way through the relay. -/
structure Departing where
  slot : SlotId
  reason : Nat
  epoch : Option Nat
  /-- When its drop would be observed. -/
  since : Nat
  /-- Announced by this relay, which holds the roster over a drop; otherwise heard from a peer. -/
  isLocal : Bool

/-- The announcement has the roster locked. -/
def Departing.locks (d : Departing) : Bool := d.isLocal && decide (d.reason = leaveReasonDropped)

/-- Returning gives the roster back. -/
def Departing.leave (d : Departing) (s : SessionState) : SessionState :=
  if d.locks then { s with rosterLocked := false } else s

/-- `announce_departure_recorded`, and the dispatch's `SlotDeparted` arm, with `hold_or_decide_leave`. -/
inductive Announce where
  | checkSeat (d : Departing) (count : Option Nat)
  | slotFrame (d : Departing) (count : Option Nat)
  | reachableFrame (d : Departing) (count lastFrame : Option Nat)
  | resultFor (d : Departing) (count lastFrame reachableFrame : Option Nat)
  | accept (d : Departing) (carried : DepartureStamps)
  | record (d : Departing) (stamps : DepartureStamps)
  | install (d : Departing) (requested : Bool)
  | hold (d : Departing)
  | supersede (d : Departing)
  | decide (d : Departing)

/-- What a peer's departure brings: a dropped count stands only with the proof. -/
def acceptedStamps (carried : DepartureStamps) (reason : Nat) (finalizedDropsEnabled : Bool) : DepartureStamps :=
  let accepted := decide (reason = leaveReasonDropped) && carried.finalized && finalizedDropsEnabled
  { carried with
      finalTurnCount := if reason ≠ leaveReasonDropped ∨ accepted then carried.finalTurnCount else none
      finalized := accepted }

def Announce.next : Program SessionState Announce Bool
  | checkSeat d count, s =>
    if d.locks then
      if s.rosterLocked then (s, .going (checkSeat d count))
      else if s.seated d.slot then (s, .done false)
      else ({ s with rosterLocked := true }, .going (slotFrame d count))
    else (s, .going (slotFrame d count))
  | slotFrame d count, s => (s, .going (reachableFrame d count (s.maker.slotFrame d.slot)))
  | reachableFrame d count lastFrame, s => (s, .going (resultFor d count lastFrame (s.maker.reachableFrame d.slot)))
  | resultFor d count lastFrame reachable, s =>
    (s, .going (record d ⟨lastFrame, reachable, s.maker.results.get? d.slot, count, false⟩))
  | accept d carried, s => (s, .going (record d (acceptedStamps carried d.reason s.maker.finalizedDropsEnabled)))
  | record d stamps, s =>
    if d.reason = leaveReasonDropped then
      if s.holdsLocked then (s, .going (record d stamps))
      else
        let (m, outcome) := s.maker.recordDepartureForEpochOutcome d.slot stamps d.reason d.epoch
        ({ s with maker := m, holdsLocked := true }, .going (install d (outcome = .pending)))
    else
      let (m, outcome) := s.maker.recordDepartureForEpochOutcome d.slot stamps d.reason d.epoch
      (s.withMaker m, if outcome = .rejected then .done false else .going (supersede d))
  | install d requested, s =>
    let s := { s with holdsLocked := false }
    if requested then (s.hold d.slot d.since, .going (hold d)) else (d.leave s, .done false)
  | hold d, s =>
    if s.holdsLocked then (s, .going (hold d)) else (d.leave (s.hold d.slot d.since), .done true)
  | supersede d, s =>
    if s.holdsLocked then (s, .going (supersede d)) else ((s.release d.slot).1, .going (decide d))
  | decide d, s => (s.withMaker (s.maker.decideLeave d.slot d.reason).1, .done true)

/-! ## Reconnects and final leaves -/

/-- `admit_reconnect`, over `DropHolds::resolve_reconnect`: the holds stay locked over the transition. -/
inductive Reconnect where
  | resolve (slot : SlotId) (observed : Option Nat)
  | consume (slot : SlotId) (transition : ReconnectTransition) (pending : Bool)

/-- The admission, and whether it took the hold. -/
abbrev Reconnected := ReconnectAdmission × Bool

def Reconnect.next : Program SessionState Reconnect Reconnected
  | resolve slot observed, s =>
    if s.holdsLocked then (s, .going (resolve slot observed))
    else
      let pending := s.isPending slot
      let (m, transition) := s.maker.resolveReconnectWith slot observed pending
      ({ s with maker := m, holdsLocked := true }, .going (consume slot transition pending))
  | consume slot transition pending, s =>
    let s := { s with holdsLocked := false }
    let taken := pending && transition.consumeHold
    (if taken then (s.release slot).1 else s, .done (transition.admission, taken))

/-- The `LeaveDirective` arm of the dispatch. -/
inductive HearLeave where
  | normalize (leave : LeaveDirective)
  | observe (leave : LeaveDirective)
  | release (slot : SlotId)

def HearLeave.next : Program SessionState HearLeave Unit
  | normalize leave, s =>
    (s, match SlotId.ofWire leave.slot with
      | none => .done ()
      | some _ => .going (observe (normalizeObservedLeave leave s.maker.finalizedDropsEnabled)))
  | observe leave, s =>
    let (m, accepted) := s.maker.observeLeave leave
    (s.withMaker m, match SlotId.ofWire leave.slot with
      | some slot => if accepted then .going (release slot) else .done ()
      | none => .done ())
  | release slot, s => if s.holdsLocked then (s, .going (release slot)) else ((s.release slot).1, .done ())

/-! ## Deciding a held drop -/

/-- `finalize_home_drop`: `finalize_drop` takes the maker's lock twice, and reads the gate in between. -/
inductive FinalizeHome where
  | sealDrop (slot : SlotId) (epoch : Option Nat)
  | readGate (slot : SlotId)
  | finish (slot : SlotId) (reading : ForwardGateReading)

def FinalizeHome.next : Program SessionState FinalizeHome FinalizeOutcome
  | sealDrop slot epoch, s =>
    let (m, refused) := s.maker.sealForFinalize slot epoch
    (s.withMaker m, match refused with
      | some outcome => .done outcome
      | none => .going (readGate slot))
  | readGate slot, s => (s, .going (finish slot (forwardGateReading s.seen () slot)))
  | finish slot reading, s =>
    let (m, outcome) := s.maker.finishFinalize slot reading
    (s.withMaker m, .done outcome)

/-- `complete_finalized_drop`. -/
inductive Complete where
  | checkStale (slot : SlotId) (count : Nat)
  | checkBasis (slot : SlotId) (count : Nat)
  | stamp (slot : SlotId) (count : Nat)
  | claim (slot : SlotId)
  | decide (slot : SlotId)

def Complete.next : Program SessionState Complete Unit
  | checkStale slot count, s =>
    (s, if (highestForwardedSeq s.seen () slot).any (count ≤ ·) then .done () else .going (checkBasis slot count))
  | checkBasis slot count, s =>
    (s, if s.maker.countedLeaveSchedulable slot then .going (stamp slot count) else .done ())
  | stamp slot count, s =>
    (s.withMaker (s.maker.recordDeparture slot { finalTurnCount := some count, finalized := true } leaveReasonDropped),
      .going (claim slot))
  | claim slot, s =>
    if s.holdsLocked then (s, .going (claim slot))
    else
      let (s, claimed) := s.release slot
      (s, if claimed then .going (decide slot) else .done ())
  | decide slot, s => (s.withMaker (s.maker.decideLeave slot leaveReasonDropped).1, .done ())

/-- `honor_drop_request`. -/
inductive Honor where
  | isAuthority (target : SlotId) (now : Nat)
  | heldFor (target : SlotId) (now : Nat)
  | finalizedDropsEnabled (target : SlotId)
  | strictlyHomes (target : SlotId)
  /-- The epoch of the `FinalizeDrop` that is sent to the home. -/
  | askHome (target : SlotId)
  | departureEpoch (target : SlotId)
  | finalize (target : SlotId) (point : FinalizeHome)
  | complete (point : Complete)
  | claim (target : SlotId)
  | decide (target : SlotId)

def Honor.next : Program SessionState Honor Unit
  | isAuthority target now, s => (s, if s.maker.authority = .selfRelay then .going (heldFor target now) else .done ())
  | heldFor target now, s =>
    if s.holdsLocked then (s, .going (heldFor target now))
    else (s, if s.heldPastUnlock target now then .going (finalizedDropsEnabled target) else .done ())
  | finalizedDropsEnabled target, s =>
    (s, if s.maker.finalizedDropsEnabled then .going (strictlyHomes target) else .going (claim target))
  | strictlyHomes target, s =>
    (s, if s.maker.strictlyHomes target then .going (departureEpoch target) else .going (askHome target))
  | askHome _, s => (s, .done ())
  | departureEpoch target, s => (s, .going (finalize target (.sealDrop target (s.maker.departureEpoch target))))
  | finalize target point, s =>
    let (s, progress) := point.next s
    (s, progress.call (finalize target) fun
      | .finalized count => .going (complete (.checkStale target count))
      | _ => .done ())
  | complete point, s =>
    let (s, progress) := point.next s
    (s, progress.call complete fun _ => .done ())
  | claim target, s =>
    if s.holdsLocked then (s, .going (claim target))
    else
      let (s, claimed) := s.release target
      (s, if claimed then .going (decide target) else .done ())
  | decide target, s => (s.withMaker (s.maker.decideLeave target leaveReasonDropped).1, .done ())

/-- `dispatch_finalize_drop_result`, for a result that carries a count. -/
inductive FinalizeResult where
  | isAuthority (slot : SlotId) (epoch : Option Nat) (count : Nat)
  | finalizedDropsEnabled (slot : SlotId) (epoch : Option Nat) (count : Nat)
  | departureEpoch (slot : SlotId) (epoch : Option Nat) (count : Nat)
  | complete (point : Complete)

def FinalizeResult.next : Program SessionState FinalizeResult Unit
  | isAuthority slot epoch count, s =>
    (s, if s.maker.authority = .selfRelay then .going (finalizedDropsEnabled slot epoch count) else .done ())
  | finalizedDropsEnabled slot epoch count, s =>
    (s, if s.maker.finalizedDropsEnabled then .going (departureEpoch slot epoch count) else .done ())
  | departureEpoch slot epoch count, s =>
    (s, if epoch = s.maker.departureEpoch slot then .going (complete (.checkStale slot count)) else .done ())
  | complete point, s =>
    let (s, progress) := point.next s
    (s, progress.call complete fun _ => .done ())

/-! ## Presence and authority -/

/-- `report_own_presence`; from `snapshot` on also what a peer's report sets off. A promotion iterates
    the departures in `order`. -/
inductive ReportPresence where
  | sample (order : List SlotId)
  | recordOwn (live : Nat) (order : List SlotId)
  | recordPeer (peer : RelayId) (live : Nat) (order : List SlotId)
  | snapshot (order : List SlotId)
  | verdict (held : Finset SlotId) (order : List SlotId)
  | setAuthority (authority : Authority) (held : Finset SlotId) (order : List SlotId)
  /-- `after_authority_change`. -/
  | maybeStart

def ReportPresence.next : Program SessionState ReportPresence Unit
  | sample order, s =>
    if s.rosterLocked then (s, .going (sample order)) else (s, .going (recordOwn s.roster.size order))
  | recordOwn live order, s =>
    let (presence, changed) := SessionPresence.recordOwn s.presence live
    ({ s with presence }, if changed then .going (snapshot order) else .done ())
  | recordPeer peer live order, s =>
    let (presence, changed) := SessionPresence.recordPeer s.presence peer live
    ({ s with presence }, if changed then .going (snapshot order) else .done ())
  | snapshot order, s =>
    if s.holdsLocked then (s, .going (snapshot order)) else (s, .going (verdict s.pendingSlots order))
  | verdict held order, s =>
    (s, match SessionPresence.verdict s.presence with
      | some authority => .going (setAuthority authority held order)
      | none => .going maybeStart)
  | setAuthority authority held order, s =>
    (s.withMaker (s.maker.setAuthority authority held order).1, .going maybeStart)
  | maybeStart, s => (s.withMaker s.maker.maybeStart.1, .done ())

/-- What a descriptor says about the session. -/
structure SessionDescriptor where
  order : List Candidate
  bounds : BufferBounds
  observers : Finset SlotId
  expected : Finset SlotId
  homed : Finset SlotId
  /-- The departures of a resumed session. -/
  resumed : Option (List DepartedSlot)

/-- What `sync_maker` does to the maker before it hands it the authority. -/
def SessionDescriptor.prepare (d : SessionDescriptor) (m : DecisionMaker) : DecisionMaker :=
  let m := ((m.setObservers d.observers).setExpectedSlots d.expected).rehomeHomedSlots d.homed
  match d.resumed with
  | some departed => (m.seedResumed departed).1
  | none => m

/-- `apply_descriptor`, for a session that has a maker. -/
inductive ApplyDescriptor where
  | setOrder (d : SessionDescriptor) (order : List SlotId)
  | verdict (d : SessionDescriptor) (order : List SlotId)
  | snapshot (d : SessionDescriptor) (authority : Authority) (order : List SlotId)
  | syncMaker (d : SessionDescriptor) (authority : Authority) (held : Finset SlotId) (order : List SlotId)

def ApplyDescriptor.next : Program SessionState ApplyDescriptor Unit
  | setOrder d order, s => ({ s with presence := some (.setOrder s.presence d.order) }, .going (verdict d order))
  | verdict d order, s => (s, .going (snapshot d ((SessionPresence.verdict s.presence).getD .peer) order))
  | snapshot d authority order, s =>
    if s.holdsLocked then (s, .going (snapshot d authority order))
    else (s, .going (syncMaker d authority s.pendingSlots order))
  | syncMaker d authority held order, s =>
    (s.withMaker ((d.prepare s.maker).syncDescriptor d.bounds authority held order).1, .done ())

/-! ## Links -/

/-- Whether a dial is refused because its slot departed. -/
inductive DecidedDeparture where
  | hasDeparture (slot : SlotId)
  | isPending (slot : SlotId) (departed : Bool)

def DecidedDeparture.next : Program SessionState DecidedDeparture Bool
  | hasDeparture slot, s => (s, .going (isPending slot (s.maker.departed slot)))
  | isPending slot departed, s =>
    if s.holdsLocked then (s, .going (isPending slot departed)) else (s, .done (departed && !s.isPending slot))

def DecidedDeparture.slot : DecidedDeparture → SlotId
  | hasDeparture slot => slot
  | isPending slot _ => slot

/-- `finalize_evicted_drop`. -/
inductive FinalizeEvicted where
  | eviction (slot : SlotId)
  | finalizedDropsEnabled (slot : SlotId)
  | strictlyHomes (slot : SlotId)
  | hasDeparture (slot : SlotId)
  | departureEpoch (slot : SlotId)
  | finalize (slot : SlotId) (point : FinalizeHome)
  | isAuthority (slot : SlotId) (outcome : FinalizeOutcome)
  | complete (point : Complete)

def FinalizeEvicted.next : Program SessionState FinalizeEvicted Unit
  | eviction slot, s =>
    (s, if s.maker.evictions.get? slot = some .desync then .going (finalizedDropsEnabled slot) else .done ())
  | finalizedDropsEnabled slot, s => (s, if s.maker.finalizedDropsEnabled then .going (strictlyHomes slot) else .done ())
  | strictlyHomes slot, s => (s, if s.maker.strictlyHomes slot then .going (hasDeparture slot) else .done ())
  | hasDeparture slot, s => (s, if s.maker.departed slot then .going (departureEpoch slot) else .done ())
  | departureEpoch slot, s => (s, .going (finalize slot (.sealDrop slot (s.maker.departureEpoch slot))))
  | finalize slot point, s =>
    let (s, progress) := point.next s
    (s, progress.call (finalize slot) fun outcome => .going (isAuthority slot outcome))
  | isAuthority slot outcome, s =>
    (s, match outcome with
      | .finalized count => if s.maker.authority = .selfRelay then .going (complete (.checkStale slot count)) else .done ()
      | _ => .done ())
  | complete point, s =>
    let (s, progress) := point.next s
    (s, progress.call complete fun _ => .done ())

/-- `decide_and_broadcast_abandoned`: every undecided departure is decided when nobody is left. -/
inductive DecideAbandoned where
  | sample (order : List SlotId)
  | allEmpty (order : List SlotId)
  | decide (order : List SlotId)
  | release (slots : List SlotId)

def DecideAbandoned.next : Program SessionState DecideAbandoned Unit
  | sample order, s =>
    if s.rosterLocked then (s, .going (sample order))
    else (s, if s.roster.size = 0 then .going (allEmpty order) else .done ())
  | allEmpty order, s => (s, if SessionPresence.allEmpty s.presence then .going (decide order) else .done ())
  | decide order, s =>
    let (m, leaves) := s.maker.decideAbandonedDepartures order
    (s.withMaker m, .going (release (leaves.filterMap (SlotId.ofWire ·.slot))))
  | release [], s => (s, .done ())
  | release (slot :: slots), s =>
    if s.holdsLocked then (s, .going (release (slot :: slots))) else ((s.release slot).1, .going (release slots))

/-- A link that ends: its slot, its generation, when, and the order a promotion iterates departures in. -/
structure EndedLink where
  slot : SlotId
  epoch : Nat
  since : Nat
  order : List SlotId

/-- The departure a link's end announces. -/
def EndedLink.departing (l : EndedLink) : Departing := ⟨l.slot, leaveReasonDropped, some l.epoch, l.since, true⟩

/-- `end_slot_link` of a link that did not leave cleanly. -/
inductive EndSlotLink where
  | deregister (l : EndedLink)
  | unpublishConditions (l : EndedLink)
  | announce (l : EndedLink) (point : Announce)
  | removeSlot (l : EndedLink)
  | finalizeEvicted (l : EndedLink) (point : FinalizeEvicted)
  | report (point : ReportPresence)

def EndSlotLink.next : Program SessionState EndSlotLink Unit
  | deregister l, s =>
    if s.rosterLocked then (s, .going (deregister l)) else (s.deregister l.slot, .going (unpublishConditions l))
  | unpublishConditions l, s =>
    let (s, retired) := s.unpublishConditions l.slot l.epoch
    (s, .going (if retired then announce l (.checkSeat l.departing none) else report (.sample l.order)))
  | announce l point, s =>
    let (s, progress) := point.next s
    (s, progress.call (announce l) fun _ => .going (removeSlot l))
  | removeSlot l, s =>
    if s.rosterLocked then (s, .going (removeSlot l))
    else
      (if s.seated l.slot then s else s.withMaker (s.maker.removeSlotForEpoch l.slot (some l.epoch)).1,
        .going (finalizeEvicted l (.eviction l.slot)))
  | finalizeEvicted l point, s =>
    let (s, progress) := point.next s
    (s, progress.call (finalizeEvicted l) fun _ => .going (report (.sample l.order)))
  | report point, s =>
    let (s, progress) := point.next s
    (s, progress.call report fun _ => .done ())

/-- The admission of a dial, from its registration on (`server/mod.rs`). `refused`: it fails after it
    took its seat, but not by the maker (no capacity, a changed assignment, an acknowledgement not
    written). -/
inductive AdmitDial where
  | register (slot : SlotId) (epoch : Nat) (refused : Bool)
  | reconnect (slot : SlotId) (point : Reconnect)
  | rollBack (slot : SlotId)

/-- Whether the dial is admitted. -/
def AdmitDial.next : Program SessionState AdmitDial Bool
  | register slot epoch refused, s =>
    if s.rosterLocked then (s, .going (register slot epoch refused))
    else match s.register slot epoch with
      | none => (s, .done false)
      | some s => (s, .going (if refused then rollBack slot else reconnect slot (.resolve slot (some epoch))))
  | reconnect slot point, s =>
    let (s, progress) := point.next s
    (s, progress.call (reconnect slot) fun
      | (.admitted _, _) => .done true
      | (.rejected, _) => .going (rollBack slot))
  | rollBack slot, s => if s.rosterLocked then (s, .going (rollBack slot)) else (s.deregister slot, .done false)

/-- A link that takes or leaves its seat, and then reports the roster. -/
inductive ChangeRoster where
  | join (slot : SlotId) (epoch : Nat) (order : List SlotId)
  | leave (slot : SlotId) (order : List SlotId)
  | report (point : ReportPresence)

def ChangeRoster.next : Program SessionState ChangeRoster Unit
  | join slot epoch order, s =>
    if s.rosterLocked then (s, .going (join slot epoch order))
    else match s.register slot epoch with
      | none => (s, .done ())
      | some s => (s, .going (report (.sample order)))
  | leave slot order, s =>
    if s.rosterLocked then (s, .going (leave slot order)) else (s.deregister slot, .going (report (.sample order)))
  | report point, s =>
    let (s, progress) := point.next s
    (s, progress.call report fun _ => .done ())

/-! ## The tasks about a slot's drop -/

/-- The operations that record, undo or decide a drop, and the gate a dial of a dropped slot passes. -/
inductive DropTask where
  | announce (point : Announce)
  | reconnect (point : Reconnect)
  | hearLeave (point : HearLeave)
  | honor (point : Honor)
  | finalizeResult (point : FinalizeResult)
  | finalizeEvicted (point : FinalizeEvicted)
  | abandoned (point : DecideAbandoned)
  | gate (point : DecidedDeparture)

/-- What such an operation answered. -/
inductive DropAnswer where
  | returned
  | reconnected (answer : Reconnected)
  | gated (slot : SlotId) (refused : Bool)

def DropTask.next : Program SessionState DropTask DropAnswer
  | announce point, s =>
    let (s, progress) := point.next s
    (s, progress.call announce fun _ => .done .returned)
  | reconnect point, s =>
    let (s, progress) := point.next s
    (s, progress.call reconnect fun answer => .done (.reconnected answer))
  | hearLeave point, s =>
    let (s, progress) := point.next s
    (s, progress.call hearLeave fun _ => .done .returned)
  | honor point, s =>
    let (s, progress) := point.next s
    (s, progress.call honor fun _ => .done .returned)
  | finalizeResult point, s =>
    let (s, progress) := point.next s
    (s, progress.call finalizeResult fun _ => .done .returned)
  | finalizeEvicted point, s =>
    let (s, progress) := point.next s
    (s, progress.call finalizeEvicted fun _ => .done .returned)
  | abandoned point, s =>
    let (s, progress) := point.next s
    (s, progress.call abandoned fun _ => .done .returned)
  | gate point, s =>
    let (s, progress) := point.next s
    (s, progress.call gate fun refused => .done (.gated point.slot refused))

/-- Whether an operation begins at the point. -/
def DropTask.isEntry : DropTask → Bool
  | announce (.checkSeat d _) => d.isLocal
  | announce (.accept d _) => !d.isLocal
  | reconnect (.resolve _ _) => true
  | hearLeave (.normalize _) => true
  | honor (.isAuthority _ _) => true
  | finalizeResult (.isAuthority _ _ _) => true
  | finalizeEvicted (.eviction _) => true
  | abandoned (.sample _) => true
  | gate (.hasDeparture _) => true
  | _ => false

/-! ## The tasks about a session's authority -/

/-- The operations that may promote this relay, and those that record and undo drops meanwhile. -/
inductive AuthorityTask where
  | announce (point : Announce)
  | reconnect (point : Reconnect)
  | link (point : ChangeRoster)
  | report (point : ReportPresence)
  | descriptor (point : ApplyDescriptor)

def AuthorityTask.next : Program SessionState AuthorityTask Unit
  | announce point, s =>
    let (s, progress) := point.next s
    (s, progress.call announce fun _ => .done ())
  | reconnect point, s =>
    let (s, progress) := point.next s
    (s, progress.call reconnect fun _ => .done ())
  | link point, s =>
    let (s, progress) := point.next s
    (s, progress.call link fun _ => .done ())
  | report point, s =>
    let (s, progress) := point.next s
    (s, progress.call report fun _ => .done ())
  | descriptor point, s =>
    let (s, progress) := point.next s
    (s, progress.call descriptor fun _ => .done ())

/-- Whether an operation begins here. Departures are drops; a peer's report begins at its record. -/
def AuthorityTask.isEntry : AuthorityTask → Bool
  | announce (.checkSeat d _) => d.isLocal && decide (d.reason = leaveReasonDropped)
  | announce (.accept d _) => !d.isLocal && decide (d.reason = leaveReasonDropped)
  | reconnect (.resolve _ _) => true
  | link (.join _ _ _) => true
  | link (.leave _ _) => true
  | report (.sample _) => true
  | report (.recordPeer _ _ _) => true
  | descriptor (.setOrder _ _) => true
  | _ => false

/-- The leaves `set_authority` decides afresh in the next section. -/
def ReportPresence.commits : ReportPresence → SessionState → List LeaveDirective
  | setAuthority authority held order, s => (s.maker.setAuthority authority held order).2.2
  | _, _ => []

def AuthorityTask.commits : AuthorityTask → SessionState → List LeaveDirective
  | link (.report point), s => point.commits s
  | report point, s => point.commits s
  | descriptor (.syncMaker d authority held order), s =>
    ((d.prepare s.maker).syncDescriptor d.bounds authority held order).2.2
  | _, _ => []

end RallyPoint.Relay
