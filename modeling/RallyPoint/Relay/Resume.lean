import RallyPoint.Relay.Seen
import RallyPoint.Relay.Session.Journal
import RallyPoint.Transport.Link

/-!
# `Relay.Resume` — the receive window of a resuming client

The model of `apply_resume_anchor` in `relay/src/routing/slot_link/setup.rs`. A client that dials again
declares an anchor for its own slot. The relay bases its fresh receive window there, and seeds it with
the receipts it holds: first the journal's, then the gate's.

The two stores are read one after the other, while a descriptor may be draining the one into the other.
`ReceiptStores` is both of them with the batch the drainer is replaying, and `ReceiptStores.Step` what
can happen to them.
-/

namespace RallyPoint.Relay

open Lib Transport

def maxSaneResumeAnchor : Nat := 1000000000

/-- Base the receive window at the anchor, then seed what the journal holds, then what the gate has. -/
def seedReceiveWindow (link : Link) (slot : SlotId) (anchor : Nat) (held : List Nat) (receipts : SlotReceipts) :
    Option Link := do
  let journaled ← held.foldlM (fun (l : Link) seq => l.seedDelivered slot seq) (link.anchorReceiveWindow slot anchor)
  let through := match receipts.forwardedThrough with
    | some through => journaled.seedDeliveredThrough slot through
    | none => journaled
  receipts.ahead.foldlM (fun (l : Link) seq => l.seedDelivered slot seq) through

/-- Whether a link setup goes on. -/
inductive ResumeFlow where
  | goOn (link : Link)
  /-- The anchor was refused and the link closed. -/
  | refused

/-- The slot's own cursor is taken out of the map: it is an anchor, not a place to replay from. -/
def applyResumeAnchor (link : Link) (slot : SlotId) (cursors : SlotId → Option Nat) (held : List Nat)
    (receipts : SlotReceipts) : Option (ResumeFlow × (SlotId → Option Nat)) :=
  let rest := Function.update cursors slot none
  match cursors slot with
  | none => some (.goOn link, rest)
  | some anchor =>
    if maxSaneResumeAnchor < anchor then some (.refused, rest)
    else (seedReceiveWindow link slot anchor held receipts).map fun seeded => (.goOn seeded, rest)

/-! ## The two stores -/

/-- Where a session's turns are recorded before a resume reads them. -/
structure ReceiptStores where
  journal : SessionPen
  /-- What the drainer has taken out of the journal and not replayed yet. -/
  batch : List PennedIngress
  gate : MeshSeen
  /-- The slots whose leave is decided. -/
  decided : Finset SlotId

namespace ReceiptStores

/-- A session nothing was received for. -/
def new : ReceiptStores := ⟨.gathering, [], .new, ∅⟩

/-- One thing that happens to the stores. The label is the slot of the turn or of the decided leave. -/
inductive Step : ReceiptStores → Option SlotId → ReceiptStores → Prop where
  /-- A client's ingress is deposited. -/
  | hold (s : ReceiptStores) (overBudget : Bool) (entry : PennedIngress) :
      Step s (entry.turnIdentity.map (·.1)) { s with journal := (s.journal.hold overBudget entry).1 }
  /-- A turn passes the gate with no journal in its way. -/
  | forward (s : ReceiptStores) (slot : SlotId) (seq : U64) :
      Step s (some slot) { s with gate := (s.gate.markForwarded slot seq).1 }
  /-- A leave of the slot is decided, by the descriptor or by anyone later. -/
  | decide (s : ReceiptStores) (slot : SlotId) : Step s (some slot) { s with decided := insert slot s.decided }
  /-- A descriptor starts the drain. -/
  | beginDrain {s : ReceiptStores} {journal : SessionPen} {batch : List PennedIngress} (hidle : s.batch = [])
      (h : s.journal.beginDrain = some (journal, batch)) : Step s none { s with journal, batch }
  /-- The drainer replays a turn, which passes the gate. Its slot's leave was undecided when the fence
      was passed, but may be decided when the gate is reached. -/
  | replayTurn {s : ReceiptStores} {slot : SlotId} {payload : Payload} {rest : List PennedIngress}
      (h : s.batch = .turn slot payload :: rest) :
      Step s none { s with batch := rest, gate := (s.gate.markForwarded slot payload.seq).1 }
  /-- The turn of a slot whose leave is decided falls at the fence, before the gate. -/
  | replayFenced {s : ReceiptStores} {slot : SlotId} {payload : Payload} {rest : List PennedIngress}
      (h : s.batch = .turn slot payload :: rest) (hdecided : slot ∈ s.decided) : Step s none { s with batch := rest }
  /-- The drainer replays something else. -/
  | replayOther {s : ReceiptStores} {entry : PennedIngress} {rest : List PennedIngress}
      (h : s.batch = entry :: rest) (hentry : entry.turnIdentity = none) : Step s none { s with batch := rest }
  /-- The drainer is done with its batch and asks for the next. -/
  | continueDrain {s : ReceiptStores} (hdone : s.batch = []) :
      Step s none { s with journal := s.journal.continueDrain.1, batch := s.journal.continueDrain.2.getD [] }

/-- What can happen while the slot's own link is down: anything but a turn of the slot or its leave. -/
def Moves (slot : SlotId) (s s' : ReceiptStores) : Prop := ∃ label, label ≠ some slot ∧ Step s label s'

end ReceiptStores

end RallyPoint.Relay
