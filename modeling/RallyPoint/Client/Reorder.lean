import RallyPoint.Lib.OrdMap
import RallyPoint.Proto.Messages

/-!
# `Client.Reorder` — the ordered release of received turns

The model of `client/src/driver/reorder.rs`: a received turn waits in its slot's buffer until the gap
below it fills, and the contiguous run from the slot's cursor is handed to the game.

The cursors are iterated in the order of a hash map, which is a parameter. What the game's channel
answers is a parameter too: `answers n` is its answer to the `n`-th `try_send` of one release.
-/

namespace RallyPoint.Client

open Lib

/-- What `try_send` answers. -/
inductive SendResult where
  | ok
  | full
  | closed
deriving DecidableEq

/-- What `release_into` observed while handing turns to the game. -/
inductive Release where
  | delivered
  | gameClosed
  | gameStalled

/-- One `try_send`: whose turn it was, and how the channel answered. -/
structure Attempt where
  slot : SlotId
  payload : Payload
  result : SendResult

structure SlotReorder where
  /-- The lowest seq of each slot not handed to the game. -/
  nextSeq : OrdMap SlotId Nat
  /-- The turns that arrived at or ahead of the cursor. -/
  pending : OrdMap SlotId (OrdMap Nat Payload)

/-- One slot's buffer after its part of a release, with the attempts so far; `stop` ends the release. -/
structure Drained where
  next : Nat
  held : OrdMap Nat Payload
  attempts : List Attempt
  stop : Option Release

/-- The `while let` over one slot's buffer. Each round takes a turn out of it, so its size is enough
    fuel. -/
def drainSlot (answers : Nat → SendResult) (slot : SlotId) : Nat → Nat → OrdMap Nat Payload → List Attempt → Drained
  | 0, next, held, attempts => ⟨next, held, attempts, none⟩
  | fuel + 1, next, held, attempts =>
    match held.get? next with
    | none => ⟨next, held, attempts, none⟩
    | some payload =>
      let result := answers attempts.length
      let attempts := attempts ++ [⟨slot, payload, result⟩]
      match result with
      | .ok => drainSlot answers slot fuel (next + 1) (held.erase next) attempts
      -- the held turn is put back before the stall is surfaced
      | .full => ⟨next, (held.erase next).insert next payload, attempts, some .gameStalled⟩
      | .closed => ⟨next, held.erase next, attempts, some .gameClosed⟩

namespace SlotReorder

variable (r : SlotReorder)

/-- `SlotReorder::default`. -/
def empty : SlotReorder := ⟨.empty, .empty⟩

/-- The slot is registered, and a turn at or past its cursor is buffered. -/
def observe (slot : SlotId) (payload : Payload) : SlotReorder :=
  let slotNext := (r.nextSeq.get? slot).getD 0
  let nextSeq := r.nextSeq.insert slot slotNext
  if slotNext ≤ payload.seq then
    { nextSeq, pending := r.pending.insert slot (((r.pending.get? slot).getD .empty).insert payload.seq payload) }
  else { r with nextSeq }

/-- The `for` over the cursors, from the slots that are left. -/
def releaseSlots (answers : Nat → SendResult) :
    List SlotId → SlotReorder → List Attempt → SlotReorder × List Attempt × Release
  | [], r, attempts => (r, attempts, .delivered)
  | slot :: rest, r, attempts =>
    match r.nextSeq.get? slot, r.pending.get? slot with
    | some next, some held =>
      let d := drainSlot answers slot held.size next held attempts
      let r : SlotReorder := ⟨r.nextSeq.insert slot d.next, r.pending.insert slot d.held⟩
      match d.stop with
      | some stop => (r, d.attempts, stop)
      | none => releaseSlots answers rest r d.attempts
    | _, _ => releaseSlots answers rest r attempts

/-- `release_into`, with the attempts it made. -/
def releaseInto (order : List SlotId) (answers : Nat → SendResult) : SlotReorder × List Attempt × Release :=
  releaseSlots answers order r []

/-- The seq each slot heard from next needs. -/
def cursors : List (SlotId × Nat) := r.nextSeq.entries

/-- Zero for a slot nothing has arrived from. -/
def nextNeeded (slot : SlotId) : Nat := (r.nextSeq.get? slot).getD 0

end SlotReorder

/-- A call on the buffer. -/
inductive ReorderOp where
  | observe (slot : SlotId) (payload : Payload)
  | releaseInto (order : List SlotId) (answers : Nat → SendResult)

/-- One call, with the attempts it made on the game's channel. -/
def ReorderOp.step (r : SlotReorder) : ReorderOp → SlotReorder × List Attempt
  | observe slot payload => (r.observe slot payload, [])
  | releaseInto order answers =>
    let (r, attempts, _) := r.releaseInto order answers
    (r, attempts)

end RallyPoint.Client
