import Mathlib.Data.Finset.Sort
import Mathlib.Data.Prod.Lex
import RallyPoint.Lib.Word

/-!
# `Proto.Messages` — the wire messages

The messages of `proto/proto/wire.proto` that the transport and the relay read and write, with the slot
identifier of `proto/src/ids.rs`. Field types follow the wire: `uint32` is `U32`, `uint64` and `fixed64`
are `U64`, `bytes` is a list of `UInt8`.
-/

namespace RallyPoint

open Lib

/-- `SlotId(pub u8)`: one player's slot in a session. -/
abbrev SlotId := Fin 256

instance SlotId.neZero : NeZero 256 := ⟨by decide⟩

instance SlotId.lawfulBEq : LawfulBEq SlotId := inferInstance

/-- The slots of a set, in the order a `BTreeSet` is iterated in. -/
abbrev SlotId.sorted (slots : Finset SlotId) : List SlotId := slots.sort (· ≤ ·)

/-- `u8::try_from(slot).map(SlotId)`: a wire slot outside `0..=255` names no slot. -/
def SlotId.ofWire (slot : U32) : Option SlotId := if h : (slot : Nat) < 256 then some ⟨slot, h⟩ else none

/-- `u32::from(slot.0)`. -/
def SlotId.toWire (slot : SlotId) : U32 := ⟨slot, lt_trans slot.isLt (by decide)⟩

@[simp] theorem SlotId.ofWire_toWire (slot : SlotId) : SlotId.ofWire slot.toWire = some slot := by
  have h : (slot.toWire : Nat) < 256 := slot.isLt
  simp only [SlotId.ofWire, h, dif_pos]
  rfl

theorem SlotId.toWire_injective : Function.Injective SlotId.toWire := by
  intro a b h
  have heq := congrArg SlotId.ofWire h
  rwa [SlotId.ofWire_toWire, SlotId.ofWire_toWire, Option.some.injEq] at heq

/-- A slot has one wire form. -/
theorem SlotId.ofWire_inj {a b : U32} {slot : SlotId} (ha : SlotId.ofWire a = some slot)
    (hb : SlotId.ofWire b = some slot) : a = b := by
  have hval : ∀ {wire : U32}, SlotId.ofWire wire = some slot → (wire : Nat) = slot := by
    intro wire h
    unfold SlotId.ofWire at h
    split at h
    · exact congrArg (fun s : SlotId => (s : Nat)) (Option.some.inj h)
    · cases h
  exact Fin.ext ((hval ha).trans (hval hb).symm)

/-- A buffer change a relay stamps onto a turn. -/
structure BufferDirective where
  bufferTurns : U32
  applyAtFrame : U32
  decisionSeq : U32
  authorityRelayId : Option U64 := none
deriving DecidableEq

/-- The order of `Option<u64>`: no id is below every id. -/
def idBelow : Option U64 → Option U64 → Bool
  | none, some _ => true
  | some a, some b => decide (a < b)
  | _, none => false

/-- A client's hash of its simulation state after `step` turns of every slot. -/
structure StateHashReport where
  step : U64
  hash : U64
deriving DecidableEq

/-- One command packet from one slot. Its identity is `(slot, seq)`. -/
structure Payload where
  seq : U64
  slot : U32
  commands : List UInt8 := []
  gameFrameCount : Option U32 := none
  syncGeneration : Option U64 := none
  bufferDirective : Option BufferDirective := none
  stateHash : Option StateHashReport := none
deriving DecidableEq

/-- The identity a payload is tracked under, the `(SlotId, u64)` of the source. -/
structure PayloadKey where
  slot : SlotId
  seq : Nat
deriving DecidableEq

/-- Keys are ordered by slot, then by seq, as the source's tuples are. -/
def PayloadKey.lex (k : PayloadKey) : SlotId ×ₗ Nat := toLex (k.slot, k.seq)

theorem PayloadKey.lex_injective : Function.Injective PayloadKey.lex := by
  rintro ⟨s, n⟩ ⟨s', n'⟩ h
  cases h
  rfl

instance : LinearOrder PayloadKey := LinearOrder.lift' PayloadKey.lex PayloadKey.lex_injective

/-- The key of a payload whose wire slot names one. -/
def Payload.key? (p : Payload) : Option PayloadKey := (SlotId.ofWire p.slot).map (⟨·, p.seq⟩)

/-- One datagram of a link: its packet seq, what it acknowledges, and the payloads it carries. -/
structure Packet where
  seq : U32
  ack : Option U32
  ackBits : BitVec 32
  payloads : List Payload
  turnsComplete : Option U64

/-- One home client's link conditions. -/
structure SlotConditions where
  slot : U32
  rttUs : U32
  lostPackets : U64
  sentPackets : U64
  connectionEpoch : Option U64

end RallyPoint
