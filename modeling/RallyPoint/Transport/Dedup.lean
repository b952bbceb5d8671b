import RallyPoint.Lib.PrefixSet
import RallyPoint.Proto.Messages

/-!
# `Transport.Dedup` — the receive-side payload dedup

The model of `transport/src/link/dedup.rs`. Every received payload is offered here and handed on only the
first time. Each slot keeps its own gap-free delivered prefix and the set of seqs delivered above it.

A function that does unchecked `u64` arithmetic returns an `Option`: `none` is an overflow.
-/

namespace RallyPoint.Transport

open Lib Function

/-- How far above the delivered prefix a link accepts a seq. -/
def receiveWindow : Nat := 4096

/-- The outcome of offering a received payload `(slot, seq)` to the dedup state. -/
inductive Delivery where
  | new
  | duplicate
  | outOfWindow

/-- The ways `retain_fresh_payloads` refuses a packet. -/
inductive DedupError where
  | payloadOutOfWindow (slot : SlotId) (seq : U64)
  | malformedSlot (slot : U32)

/-- One slot's receive-side dedup state. -/
structure SlotDedup where
  /-- Top of the contiguous delivered prefix; `none` until seq 0 is delivered. -/
  deliveredThrough : Option Nat
  /-- Delivered seqs above the prefix, kept until the gaps below them fill. -/
  ahead : Finset Nat

namespace SlotDedup

variable (s : SlotDedup)

/-- The entry `or_insert_with` creates. -/
def pristine : SlotDedup := ⟨none, ∅⟩

/-- The set of delivered seqs the state stores. -/
def seqs : PrefixSet := ⟨s.deliveredThrough, s.ahead⟩

def ofSeqs (p : PrefixSet) : SlotDedup := ⟨p.top, p.ahead⟩

@[simp] theorem ofSeqs_seqs : ofSeqs s.seqs = s := rfl

/-- The loop is the library's, with the `u64` ceiling. -/
def absorbContiguousRun : SlotDedup := ofSeqs (s.seqs.absorb u64Max)

/-- `advance_contiguous`. The caller has established that `seq` is the receive base. -/
def advanceContiguous (seq : Nat) : SlotDedup := absorbContiguousRun { s with deliveredThrough := some seq }

/-- Slide the prefix just far enough for `seq` to fit the window. -/
def collapseForwardUntilFits (seq window : Nat) : Option SlotDedup := do
  let through ← checkedSub seq window
  some (absorbContiguousRun ⟨some through, s.ahead.filter (through < ·)⟩)

/-- The last step of `accept`: `seq` lies above the base and inside the window. -/
def insertAhead (seq : Nat) : SlotDedup × Delivery :=
  if seq ∈ s.ahead then (s, .duplicate)
  else (absorbContiguousRun { s with ahead := insert seq s.ahead }, .new)

/-- `delivered_through.map_or(0, |t| t + 1)`: the lowest seq not yet part of the contiguous prefix. -/
def nextBase : Option Nat :=
  match s.deliveredThrough with
  | none => some 0
  | some t => checkedAdd u64Max t 1

/-- The body of `accept`, on the slot's own entry. -/
def accept (window : Nat) (forwardCollapse : Bool) (s : SlotDedup) (seq : Nat) : Option (SlotDedup × Delivery) :=
  -- compared with the prefix top, not with a "next expected" seq that a top of `u64::MAX` does not have
  if s.deliveredThrough.any (seq ≤ ·) then some (s, .duplicate)
  else do
    let base ← s.nextBase
    if window ≠ 0 ∧ seq = base then some (s.advanceContiguous seq, .new)
    else
      let distance ← checkedSub seq base
      if window ≤ distance then
        if forwardCollapse then
          let collapsed ← s.collapseForwardUntilFits seq window
          some (collapsed.insertAhead seq)
        else some (s, .outOfWindow)
      else some (s.insertAhead seq)

/-- The body of `mark_delivered`. -/
def markDelivered (seq : Nat) : Option SlotDedup :=
  match s.deliveredThrough with
  | some top =>
    if seq ≤ top then some s
    else do
      let next ← checkedAdd u64Max top 1
      if seq = next then some (s.advanceContiguous seq)
      else some { s with ahead := insert seq s.ahead }
  | none =>
    if seq = 0 then some (s.advanceContiguous 0)
    else some { s with ahead := insert seq s.ahead }

/-- The sparse seqs past `through`: `split_off(&above)`, or nothing at the `u64` ceiling. -/
def aheadPast (through : Nat) : Finset Nat :=
  match checkedAdd u64Max through 1 with
  | some above => s.ahead.filter (above ≤ ·)
  | none => ∅

/-- The body of `mark_delivered_through`, which never rewinds the prefix. -/
def markDeliveredThrough (through : Nat) : SlotDedup :=
  let top := if s.deliveredThrough.all (· < through) then some through else s.deliveredThrough
  absorbContiguousRun ⟨top, s.aheadPast through⟩

/-- The body of `anchor`, past its check that `anchor` is not 0. -/
def anchor (prefixTop : Nat) : SlotDedup :=
  if s.deliveredThrough = none ∧ s.ahead = ∅ then { s with deliveredThrough := some prefixTop } else s

end SlotDedup

/-- Receive-side payload dedup, per slot. -/
structure Dedup where
  slots : SlotId → Option SlotDedup
  /-- The highest per-slot cursor force-retired through `Link::retire_through`. -/
  retiredThrough : SlotId → Option Nat
  window : Nat
  /-- Whether a seq beyond the window collapses the prefix forward instead of being refused. -/
  forwardCollapse : Bool

namespace Dedup

variable (d : Dedup) (slot : SlotId)

/-- The strict dedup with an explicit window. -/
def withWindow (window : Nat) : Dedup := ⟨fun _ => none, fun _ => none, window, false⟩

/-- `Dedup::new`, the dedup `Link::new` builds. -/
def new : Dedup := withWindow receiveWindow

/-- `with_forward_collapse`, the dedup of a mesh link. -/
def withForwardCollapse : Dedup := { withWindow receiveWindow with forwardCollapse := true }

/-- `slots.entry(slot).or_insert_with(..)`, read. -/
def entry : SlotDedup := (d.slots slot).getD .pristine

def setSlot (s : SlotDedup) : Dedup := { d with slots := update d.slots slot (some s) }

def deliveredThrough : Option Nat := (d.slots slot).bind (·.deliveredThrough)

def accept (seq : Nat) : Option (Dedup × Delivery) := do
  let (s, r) ← (d.entry slot).accept d.window d.forwardCollapse seq
  some (d.setSlot slot s, r)

def markDelivered (seq : Nat) : Option Dedup := do
  let s ← (d.entry slot).markDelivered seq
  some (d.setSlot slot s)

def markDeliveredThrough (through : Nat) : Dedup := d.setSlot slot ((d.entry slot).markDeliveredThrough through)

def anchor (anchor : Nat) : Dedup :=
  match checkedSub anchor 1 with
  | none => d
  | some prefixTop => d.setSlot slot ((d.entry slot).anchor prefixTop)

/-- Whether the cursor is strictly past the last one applied for `slot`. -/
def advanceRetiredThrough (throughSeq : Nat) : Dedup × Bool :=
  if (d.retiredThrough slot).any (throughSeq ≤ ·) then (d, false)
  else ({ d with retiredThrough := update d.retiredThrough slot (some throughSeq) }, true)

/-! ## The whole-packet filter -/

/-- `sort_by_key(|payload| (payload.slot, payload.seq))`, which is stable. -/
def sortPayloads (payloads : List Payload) : List Payload :=
  payloads.insertionSort fun p q => p.slot < q.slot ∨ p.slot = q.slot ∧ p.seq ≤ q.seq

/-- Each distinct valid slot of an already sorted packet, with its entry. -/
def snapshotSortedPayloadSlots (d : Dedup) (previous : Option SlotId) :
    List Payload → List (SlotId × Option SlotDedup)
  | [] => []
  | p :: ps =>
    match SlotId.ofWire p.slot with
    | none => d.snapshotSortedPayloadSlots previous ps
    | some slot =>
      if previous = some slot then d.snapshotSortedPayloadSlots previous ps
      else (slot, d.slots slot) :: d.snapshotSortedPayloadSlots (some slot) ps

/-- Put the captured slots back, removing an entry that did not exist. -/
def restore (snapshot : List (SlotId × Option SlotDedup)) : Dedup :=
  snapshot.foldl (fun d e => { d with slots := update d.slots e.1 e.2 }) d

/-- The `retain` closure over the sorted packet. `Vec::retain` cannot stop early: after a failure the
    rest is discarded with no further change. -/
def retainLoop (d : Dedup) : List Payload → Option (Dedup × Option DedupError × List Payload)
  | [] => some (d, none, [])
  | p :: ps =>
    match SlotId.ofWire p.slot with
    | none => some (d, some (.malformedSlot p.slot), [])
    | some slot => do
        let (d', r) ← d.accept slot p.seq
        match r with
        | .new => do
            let (d'', failure, kept) ← retainLoop d' ps
            some (d'', failure, p :: kept)
        | .duplicate => retainLoop d' ps
        | .outOfWindow => some (d', some (.payloadOutOfWindow slot p.seq), [])

/-- Sort, snapshot, offer every payload, and on a failure restore the snapshot. The answer is the first
    deliveries, ordered by `(slot, seq)`. -/
def retainFreshPayloads (payloads : List Payload) : Option (Dedup × Except DedupError (List Payload)) := do
  let sorted := sortPayloads payloads
  let snapshot := d.snapshotSortedPayloadSlots none sorted
  let (d', failure, kept) ← d.retainLoop sorted
  match failure with
  | some error => some (d'.restore snapshot, .error error)
  | none => some (d', .ok kept)

end Dedup

end RallyPoint.Transport
