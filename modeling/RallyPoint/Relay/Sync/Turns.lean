import RallyPoint.Lib.OrdMap
import RallyPoint.Transport.Dedup

/-!
# `Relay.Sync.Turns` — the order of the checksum reports

The model of `relay/src/consensus/sync/turns.rs`: the turns of each origin are put in sequence order, and
only then the four-bit ring of a checksum is unwrapped to its native generation (its **ordinal**). An
origin whose history becomes uncertain fails for good; the others keep their own.
-/

namespace RallyPoint.Relay

open Lib

/-- How far ahead of the next missing turn metadata is retained. -/
def syncTurnWindow : Nat := Transport.receiveWindow

def syncRingModulus : Nat := 16

def gameSyncSafeBufferMax : Nat := 14

/-- `SyncValue`, the two bytes of `hash16`. -/
abbrev SyncValue := UInt8 × UInt8

/-- A parsed checksum command. -/
structure SyncCommand where
  ring : Nat
  kind : Nat
  value : SyncValue
deriving DecidableEq

/-- A half-open interval of generations an origin asserts it did not emit. -/
structure SyncGap where
  first : Nat
  stop : Nat
deriving DecidableEq

/-- One turn's checksum metadata. The ordinal is assigned when the turn is consumed. -/
structure SyncTurn where
  frame : Option U32
  ordinal : Option Nat
  command : Option SyncCommand
  generation : Option U64
  skipped : Option SyncGap

/-- Why an origin's order became uncertain. -/
inductive SyncFailureReason where
  | sequenceGap
  | metadataCapacity
  | sequenceOverflow
  | ordinalOverflow
  | ringDiscontinuity
  | generationOverflow
  | generationInitialAnchor
  | generationModeMismatch
  | generationRingMismatch
  | generationMissingAnchor
  | generationRegression
  | generationJump
  | generationWithoutSync
deriving DecidableEq

structure SyncOrderingFailure where
  reason : SyncFailureReason
  seq : Nat
  /-- The first missing sequence; on a ring failure, the sequence being consumed. -/
  next : Nat
  previousOrdinal : Option Nat
  ring : Option Nat

inductive SyncMode where
  | legacy
  | enhanced
deriving DecidableEq

/-- One origin's ordering state. -/
structure SlotTurns where
  next : Nat
  pending : OrdMap Nat SyncTurn
  ordinal : Option Nat
  mode : Option SyncMode
  failure : Option SyncOrderingFailure

/-- A repeat or one step of the ring. -/
def unwrapLegacyOrdinal (last : Option Nat) (ring : Nat) : Except SyncFailureReason Nat :=
  match last with
  | none => .ok ring
  | some last =>
    if last % syncRingModulus = ring then .ok last
    else if (last % syncRingModulus + 1) % syncRingModulus = ring then
      match checkedAdd u64Max last 1 with
      | some next => .ok next
      | none => .error .ordinalOverflow
    else .error .ringDiscontinuity

namespace SlotTurns

variable (s : SlotTurns)

/-- `SlotTurns::default`. -/
def empty : SlotTurns := ⟨0, .empty, none, none, none⟩

/-- The loop of `first_missing`. -/
def missingFrom (pending : OrdMap Nat SyncTurn) : Nat → Nat → Nat
  | 0, next => next
  | fuel + 1, next =>
    if (pending.get? next).isSome then
      match checkedAdd u64Max next 1 with
      | some following => missingFrom pending fuel following
      | none => next
    else next

/-- The queue holds `pending.size` turns, so the loop makes at most that many rounds. -/
def firstMissing : Nat := missingFrom s.pending s.pending.size s.next

/-- The pending metadata is discarded, for good. -/
def fail (reason : SyncFailureReason) (seq : Nat) (turn : SyncTurn) : SlotTurns × SyncOrderingFailure :=
  let failure : SyncOrderingFailure := {
    reason, seq
    next := s.firstMissing
    previousOrdinal := s.ordinal
    ring := turn.command.map (·.ring) }
  ({ s with pending := .empty, failure := some failure }, failure)

/-- `Err(self.fail(..))`. -/
def refuse {α : Type} (s : SlotTurns) (reason : SyncFailureReason) (seq : Nat) (turn : SyncTurn) :
    SlotTurns × Except SyncOrderingFailure α :=
  ((s.fail reason seq turn).1, .error (s.fail reason seq turn).2)

/-- The ordinal of a checksum, and the generations it skips, by the origin's mode. -/
def assign (ring : Nat) (generation : Option U64) : Except SyncFailureReason (Nat × Option SyncGap) :=
  match s.mode, generation with
  | none, none | some .legacy, none => (unwrapLegacyOrdinal s.ordinal ring).map (·, none)
  | none, some generation =>
    if (generation : Nat) = u64Max then .error .generationOverflow
    else if (generation : Nat) ≠ ring then .error .generationInitialAnchor
    else .ok (generation, none)
  | some .legacy, some _ | some .enhanced, none => .error .generationModeMismatch
  | some .enhanced, some generation =>
    if (generation : Nat) = u64Max then .error .generationOverflow
    else if generation % syncRingModulus ≠ ring then .error .generationRingMismatch
    else match s.ordinal with
      | none => .error .generationMissingAnchor
      | some last =>
        match checkedSub generation last with
        | none => .error .generationRegression
        | some delta =>
          if gameSyncSafeBufferMax < delta then .error .generationJump
          else if 1 < delta then
            match checkedAdd u64Max last 1 with
            | none => .error .ordinalOverflow
            | some first => .ok (generation, some ⟨first, generation⟩)
          else .ok (generation, none)

/-- The mode after a checksum: the first one fixes it. -/
def modeAfter (generation : Option U64) : SyncMode := s.mode.getD (if generation.isSome then .enhanced else .legacy)

/-- The turn at `next` takes its place in the origin's history. -/
def consume (seq : Nat) (turn : SyncTurn) : SlotTurns × Except SyncOrderingFailure SyncTurn :=
  match checkedAdd u64Max s.next 1 with
  | none => s.refuse .sequenceOverflow seq turn
  | some next =>
    match turn.command with
    | some command =>
      match s.assign command.ring turn.generation with
      | .error reason =>
        -- an untagged first checksum fixes the mode before its ring is unwrapped
        let s := if turn.generation.isNone then { s with mode := some (s.modeAfter none) } else s
        s.refuse reason seq turn
      | .ok (ordinal, gap) =>
        ({ s with next, ordinal := some ordinal, mode := some (s.modeAfter turn.generation) },
          .ok { turn with ordinal := some ordinal, skipped := gap <|> turn.skipped })
    | none =>
      if turn.generation.isSome then s.refuse .generationWithoutSync seq turn
      else ({ s with next }, .ok turn)

/-- `push` for one origin. -/
def push (seq : Nat) (turn : SyncTurn) : SlotTurns × Except SyncOrderingFailure (Option SyncTurn) :=
  if s.failure.isSome ∨ seq < s.next then (s, .ok none)
  else if seq = s.next then
    let (s, result) := s.consume seq turn
    (s, result.map some)
  else if syncTurnWindow ≤ seq - s.next ∧ syncTurnWindow ≤ seq - s.firstMissing then
    s.refuse .sequenceGap seq turn
  else if syncTurnWindow ≤ s.pending.size ∧ (s.pending.get? seq).isNone then
    s.refuse .metadataCapacity seq turn
  else if (s.pending.get? seq).isSome then (s, .ok none)
  else ({ s with pending := s.pending.insert seq turn }, .ok none)

/-- `pop_ready` for one origin. -/
def popReady : SlotTurns × Except SyncOrderingFailure (Option SyncTurn) :=
  match s.pending.get? s.next with
  | none => (s, .ok none)
  | some turn =>
    let (s, result) := { s with pending := s.pending.erase s.next }.consume s.next turn
    (s, result.map some)

end SlotTurns

/-- Every origin's ordering state. -/
structure SyncTurns where
  slots : SlotId → Option SlotTurns

namespace SyncTurns

variable (t : SyncTurns) (slot : SlotId)

def empty : SyncTurns := ⟨fun _ => none⟩

def entry : SlotTurns := (t.slots slot).getD .empty

def setSlot (s : SlotTurns) : SyncTurns := ⟨Function.update t.slots slot (some s)⟩

def push (seq : Nat) (turn : SyncTurn) : SyncTurns × Except SyncOrderingFailure (Option SyncTurn) :=
  let (s, result) := (t.entry slot).push seq turn
  (t.setSlot slot s, result)

def popReady : SyncTurns × Except SyncOrderingFailure (Option SyncTurn) :=
  match t.slots slot with
  | none => (t, .ok none)
  | some s =>
    let (s, result) := s.popReady
    (t.setSlot slot s, result)

def failure : Option SyncOrderingFailure := (t.slots slot).bind (·.failure)

def unavailable : Bool := (t.failure slot).isSome

end SyncTurns

end RallyPoint.Relay
