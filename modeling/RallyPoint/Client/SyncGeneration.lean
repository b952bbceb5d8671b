import RallyPoint.Lib.Word
import RallyPoint.Proto.Commands

/-!
# `Client.SyncGeneration` — which generation a turn's checksum is of

The model of `client/src/sync_generation.rs`. The native game records one checksum per executed step, in
a ring of sixteen. A flush sends the buffer assembled so far, which begins with the checksum staged by
the flush before, and stages the current one for the next. The tracker counts the recordings and tags
each turn with the generation its checksum was staged at.

Generations are natural numbers below the largest `u64`, which is the tag that no relay accepts.
-/

namespace RallyPoint.Client

open Lib Proto

def ringSize : Nat := 16

def syncCommand : UInt8 := 0x37

def syncCommandLen : Nat := 7

def invalidGeneration : Nat := u64Max

/-- What the walk over a turn's commands comes to. -/
inductive FirstSync where
  /-- A command that cannot be told, before any checksum. -/
  | malformed
  /-- No checksum. -/
  | absent
  /-- The first checksum, with its ring. -/
  | found (ring : Nat)
deriving DecidableEq

/-- The loop of `stamp_turn`. -/
def firstSyncFrom : Nat → List UInt8 → FirstSync
  | 0, _ => .absent
  | fuel + 1, remaining =>
    if remaining = [] then .absent
    else match (commandLength remaining).filter fun length => 0 < length ∧ length ≤ remaining.length with
      | none => .malformed
      | some length =>
        if remaining.head? = some syncCommand ∧ length = syncCommandLen then .found (remaining.getD 1 0 >>> 4).toNat
        else firstSyncFrom fuel (remaining.drop length)

/-- Every command takes a byte or more, so the loop is over after `commands.length` of them. -/
def firstSync (commands : List UInt8) : FirstSync := firstSyncFrom commands.length commands

structure SyncGenerationTracker where
  nativeGeneration : Option Nat
  stagedGeneration : Option Nat
  failed : Bool

namespace SyncGenerationTracker

variable (t : SyncGenerationTracker)

/-- `SyncGenerationTracker::default`. -/
def new : SyncGenerationTracker := ⟨none, none, false⟩

/-- The first ring anchors the generation. -/
def observeNativeRing (ring : UInt8) : SyncGenerationTracker × Option Nat :=
  if t.failed then (t, none)
  else if ringSize ≤ ring.toNat then ({ t with failed := true }, none)
  else
    let generation := t.nativeGeneration.getD ring.toNat
    let t := { t with nativeGeneration := some generation }
    if generation % ringSize ≠ ring.toNat then ({ t with failed := true }, none) else (t, some generation)

def recordSyncSlot (before after : UInt8) : SyncGenerationTracker :=
  match t.observeNativeRing before with
  | (t, none) => t
  | (t, some previous) =>
    if after.toNat ≠ (before.toNat + 1) % ringSize then { t with failed := true }
    else match (checkedAdd u64Max previous 1).filter (· ≠ invalidGeneration) with
      | some generation => { t with nativeGeneration := some generation }
      | none => { t with failed := true }

/-- The tag of the turn. -/
def stampTurn (commands : List UInt8) (nativeRing : UInt8) : SyncGenerationTracker × Option Nat :=
  let (t, current) := t.observeNativeRing nativeRing
  let staged := t.stagedGeneration <|> current
  let t := { t with stagedGeneration := current }
  match firstSync commands with
  | .malformed => ({ t with failed := true }, some invalidGeneration)
  | .absent => (t, none)
  | .found ring =>
    -- nothing staged is as bad as a staged generation of another ring
    if t.failed ∨ staged.all (· % ringSize ≠ ring) then ({ t with failed := true }, some invalidGeneration)
    else (t, staged)

end SyncGenerationTracker

/-- A call of the native game on its tracker. -/
inductive NativeCall where
  | recordSyncSlot (before after : UInt8)
  | stampTurn (commands : List UInt8) (nativeRing : UInt8)

/-- The tracker after one call, and the tag of the turn if it is a stamp. -/
def NativeCall.apply (t : SyncGenerationTracker) : NativeCall → SyncGenerationTracker × Option (List UInt8 × Option Nat)
  | .recordSyncSlot before after => (t.recordSyncSlot before after, none)
  | .stampTurn commands nativeRing =>
    let (t, tag) := t.stampTurn commands nativeRing
    (t, some (commands, tag))

/-- The tracker after some calls, and the turns stamped, each with its tag. -/
def SyncGenerationTracker.run (t : SyncGenerationTracker) :
    List NativeCall → SyncGenerationTracker × List (List UInt8 × Option Nat)
  | [] => (t, [])
  | call :: calls =>
    let (t, turn) := call.apply t
    let (t, turns) := t.run calls
    (t, turn.toList ++ turns)

end RallyPoint.Client
