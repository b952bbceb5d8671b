import RallyPoint.Relay.Maker.State

/-!
# `Relay.Session.Presence` — who still serves players

The model of `relay/src/session/presence.rs` for one session: the authority order, the last live-player
counts of this relay and of its peers, and the verdict they give. The registry's entry for the session is
an `Option`: a function of the registry is here a function of that entry.
-/

namespace RallyPoint.Relay

open Lib

/-- `RelayId(pub u64)`. -/
abbrev RelayId := Nat

/-- One relay's place in the order, with this relay already resolved. -/
inductive Candidate where
  | selfRelay
  | peer (id : RelayId)
deriving DecidableEq

structure SessionPresence where
  order : List Candidate
  peerReports : OrdMap RelayId Nat
  peersEverLive : Finset RelayId
  ownReport : Option Nat
  /-- How often this relay's roster went from empty to serving. -/
  ownWentLive : Nat
  everLive : Bool

namespace SessionPresence

variable (p : SessionPresence) (entry : Option SessionPresence)

/-- `SessionPresence::default`. -/
def empty : SessionPresence := ⟨[], .empty, ∅, none, 0, false⟩

/-- The reports of relays the order names are kept. -/
def setOrder (order : List Candidate) : SessionPresence :=
  let p := entry.getD .empty
  { p with
      peerReports := p.peerReports.filter fun id _ => decide (.peer id ∈ order)
      peersEverLive := p.peersEverLive.filter fun id => .peer id ∈ order
      order := order }

/-- A zero takes a peer out only once it has reported players. -/
def peerLive (peer : RelayId) : Bool :=
  (p.peerReports.get? peer).all fun c => decide (0 < c) || decide (peer ∉ p.peersEverLive)

/-- Whether this relay counts as serving: it has not reported, or its report is positive. -/
def ownLive : Bool := p.ownReport.all (0 < ·)

/-- The report of a peer on an entry. -/
def withPeer (peer : RelayId) (live : Nat) : SessionPresence :=
  { p with
      peerReports := p.peerReports.insert peer live
      peersEverLive := if 0 < live then insert peer p.peersEverLive else p.peersEverLive
      everLive := p.everLive || decide (0 < live) }

/-- `record_peer`, with whether the peer's liveness changed. Without an entry the report is dropped. -/
def recordPeer (peer : RelayId) (live : Nat) : Option SessionPresence × Bool :=
  match entry with
  | none => (none, false)
  | some p => (some (p.withPeer peer live), p.peerLive peer != (p.withPeer peer live).peerLive peer)

/-- The report of this relay on an entry. -/
def withOwn (live : Nat) : SessionPresence :=
  { p with
      ownReport := some live
      ownWentLive := if 0 < live ∧ ¬ p.ownReport.any (0 < ·) then p.ownWentLive + 1 else p.ownWentLive
      everLive := p.everLive || decide (0 < live) }

/-- `record_own`, with whether this relay's liveness changed. A positive report makes an entry without an
    order. -/
def recordOwn (live : Nat) : Option SessionPresence × Bool :=
  match entry with
  | some p => (some (p.withOwn live), p.ownLive != decide (0 < live))
  | none =>
    if 0 < live then (some { empty with ownReport := some live, ownWentLive := 1, everLive := true }, false)
    else (none, false)

/-- Whether a relay of the order is still live. -/
def candidateLive : Candidate → Bool
  | .selfRelay => p.ownLive
  | .peer id => p.peerLive id

/-- The first live relay of the order decides; with none of them live, some other relay. -/
def verdict : Option Authority :=
  match entry with
  | none => none
  | some p =>
    if p.order.isEmpty then none
    else match p.order.find? p.candidateLive with
      | some .selfRelay => some .selfRelay
      | some (.peer _) => some .peer
      | none => some .peer

/-- `all_empty`, for a relay with an empty roster: every peer has reported zero, and someone has played. -/
def allEmpty : Bool :=
  entry.any fun p => !p.order.isEmpty && p.everLive && p.order.all fun
    | .selfRelay => true
    | .peer id => decide (p.peerReports.get? id = some 0)

end SessionPresence

/-- The order a descriptor gives, as the relay `ownId` resolves it. -/
def resolveOrder (ownId : RelayId) (ranked : List RelayId) : List Candidate :=
  ranked.map fun id => if id = ownId then .selfRelay else .peer id

end RallyPoint.Relay
