import RallyPoint.Lib.PrefixSet
import RallyPoint.Proto.Messages

/-!
# `Relay.Seen` — the forward-once gate

The model of `relay/src/mesh/seen.rs`. Before a turn is fanned out to the relay's local clients it is
marked here; a turn that was marked before is a copy and is dropped. Each slot keeps a gap-free prefix of
forwarded seqs and a **bounded** sparse set above it: past the bound the prefix collapses forward over
the lowest gap. The readers at the end answer what a leave or a drop may be scheduled on.
-/

namespace RallyPoint.Relay

open Lib

/-- How many seqs above the prefix one slot's gate holds. -/
def sparseSeenCap : Nat := 4096

/-- Whether a `(slot, seq)` has already been forwarded to local clients. -/
inductive Seen where
  | new
  | duplicate

/-- What recording one turn at the forward gate did. -/
structure Forwarded where
  seen : Seen
  /-- Whether the turn moved the gap-free prefix over turns that were really forwarded. -/
  prefixAdvanced : Bool
  /-- How many of the slot's turns the prefix covers after this turn. -/
  forwarded : Nat

def Forwarded.duplicate : Forwarded := ⟨.duplicate, false, 0⟩

/-- One slot's forward-once state. -/
structure SlotSeen where
  /-- Top of the contiguous forwarded prefix; `none` until seq 0 is forwarded. -/
  forwardedThrough : Option Nat
  /-- Forwarded seqs above the prefix. -/
  ahead : Finset Nat
  /-- Whether the prefix was ever pushed over a gap by the cap. -/
  prefixCollapsed : Bool

namespace SlotSeen

variable (s : SlotSeen)

/-- The entry `or_insert_with` creates. -/
def pristine : SlotSeen := ⟨none, ∅, false⟩

/-- The seqs at or below the prefix top, with the sparse ones. -/
def seqs : PrefixSet := ⟨s.forwardedThrough, s.ahead⟩

/-- How many turns the prefix covers. -/
def forwardedCount : Nat :=
  match s.forwardedThrough with
  | none => 0
  | some through => saturatingAdd u64Max through 1

/-- The loop is the library's, with the `u64` ceiling. -/
def absorbContiguousRun : SlotSeen :=
  let p := s.seqs.absorb u64Max
  { s with forwardedThrough := p.top, ahead := p.ahead }

/-- The loop of `collapse_to_cap`. Each round takes a seq out of the sparse set, so its size is enough
    fuel. -/
def collapseLoop : Nat → SlotSeen → SlotSeen
  | 0, s => s
  | fuel + 1, s =>
    if h : sparseSeenCap < s.ahead.card then
      let lowest := s.ahead.min' (Finset.card_pos.mp (Nat.zero_lt_of_lt h))
      collapseLoop fuel (absorbContiguousRun ⟨some lowest, s.ahead.erase lowest, true⟩)
    else s

/-- Push the prefix over the lowest gaps until the sparse set fits its bound. -/
def collapseToCap : SlotSeen := collapseLoop s.ahead.card s

/-- The seq right above the prefix, which a prefix top of `u64::MAX` does not have. -/
def nextBase : Option Nat :=
  match s.forwardedThrough with
  | some through => checkedAdd u64Max through 1
  | none => some 0

/-- The last step of `mark_forwarded`: a seq above the base that is not held yet. -/
def putAhead (seq : Nat) : SlotSeen × Forwarded :=
  let absorbed := absorbContiguousRun { s with ahead := insert seq s.ahead }
  let closedAGap : Bool := absorbed.forwardedThrough ≠ s.forwardedThrough
  let s' := absorbed.collapseToCap
  -- read after the collapse: a prefix that has jumped a gap reports no progress
  (s', ⟨.new, closedAGap && !s'.prefixCollapsed, s'.forwardedCount⟩)

/-- The body of `mark_forwarded`, on the slot's own entry. -/
def markForwarded (seq : Nat) : SlotSeen × Forwarded :=
  if s.forwardedThrough.any (seq ≤ ·) then (s, .duplicate)
  else match s.nextBase with
    | none => (s, .duplicate)
    | some base =>
      if seq = base then
        let s' := absorbContiguousRun { s with forwardedThrough := some seq }
        (s', ⟨.new, !s'.prefixCollapsed, s'.forwardedCount⟩)
      else if seq ∈ s.ahead then (s, .duplicate)
      else s.putAhead seq

end SlotSeen

/-- The forward-once set of one session. -/
structure MeshSeen where
  slots : SlotId → Option SlotSeen

namespace MeshSeen

def new : MeshSeen := ⟨fun _ => none⟩

/-- `slots.entry(slot).or_insert_with(..)`, read. -/
def entry (m : MeshSeen) (slot : SlotId) : SlotSeen := (m.slots slot).getD .pristine

/-- Record `(slot, seq)` as forwarded and report whether it was new. -/
def markForwarded (m : MeshSeen) (slot : SlotId) (seq : Nat) : MeshSeen × Forwarded :=
  let (s, f) := (m.entry slot).markForwarded seq
  (⟨Function.update m.slots slot (some s)⟩, f)

end MeshSeen

/-- One slot's receipts at the gate: the top of its prefix, and the seqs above it in ascending order. -/
structure SlotReceipts where
  forwardedThrough : Option Nat
  ahead : List Nat

/-- The receipts of one slot of a session. -/
def MeshSeen.receipts (m : MeshSeen) (slot : SlotId) : SlotReceipts :=
  match m.slots slot with
  | none => ⟨none, []⟩
  | some state => ⟨state.forwardedThrough, state.ahead.sort (· ≤ ·)⟩

/-! ## The registries and their readers -/

/-- Each session's gate. -/
abbrev SeenRegistries (κ : Type) := κ → Option MeshSeen

/-- What a drop finalization may seal from the gate for a slot. -/
inductive ForwardGateReading where
  | count (n : Nat)
  | neverForwarded
  | unsound

section Registries

variable {κ : Type} (registries : SeenRegistries κ) (key : κ) (slot : SlotId)

/-- The slot's gate state in the session, if it has any. -/
def slotSeen : Option SlotSeen := (registries key).bind (·.slots slot)

/-- The number of the slot's turns forwarded as a gap-free prefix. -/
def forwardedCount : Option Nat := do
  let state ← slotSeen registries key slot
  if state.prefixCollapsed then none
  else
    let through ← state.forwardedThrough
    checkedAdd u64Max through 1

/-- The count of a recorded set that is exactly `0..n`, no record of the slot, or anything else. -/
def forwardGateReading : ForwardGateReading :=
  match slotSeen registries key slot with
  | none => .neverForwarded
  | some state =>
    if state.prefixCollapsed ∨ state.ahead ≠ ∅ then .unsound
    else match state.forwardedThrough.bind (checkedAdd u64Max · 1) with
      | none => .unsound
      | some n => .count n

/-- The highest recorded seq, in the prefix or above a gap. -/
def highestForwardedSeq : Option Nat := do
  let state ← slotSeen registries key slot
  if h : state.ahead.Nonempty then some (state.ahead.max' h) else state.forwardedThrough

end Registries

end RallyPoint.Relay
