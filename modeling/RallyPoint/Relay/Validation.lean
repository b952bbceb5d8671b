import RallyPoint.Proto.Commands
import RallyPoint.Proto.Messages

/-!
# `Relay.Validation` — the relay's gate over client turns

The model of `relay/src/validation.rs`. A client's turn is walked command by command: each command is
bounds-checked against the length table, the commands a live turn may not carry are stripped, and the
turn is bound to the slot the client is authorized for. The walk keeps the decoded buffer in place until
the first stripped command; only then is a copy made, of the bytes already walked.
-/

namespace RallyPoint.Relay

open Lib Proto

/-- Pacing opcodes a client may not originate. -/
def relayOwnedPacing : List UInt8 := [0x55, 0x5f, 0x66]

/-- Replay-playback opcodes. -/
def replayOnly : List UInt8 := [0x56, 0x5d, 0x57]

/-- The selection hotkey command. -/
def hotkey : UInt8 := 0x13

/-- The selection groups a player has. -/
def selectionGroups : UInt8 := 18

/-- The first arm needs three bytes, so a shorter hotkey falls to the second. -/
def isStrippedFromLiveTurn : List UInt8 → Bool
  | opcode :: _ :: group :: _ =>
    if opcode = hotkey then decide (selectionGroups ≤ group)
    else relayOwnedPacing.contains opcode || replayOnly.contains opcode
  | opcode :: _ => relayOwnedPacing.contains opcode || replayOnly.contains opcode
  | [] => false

/-- Why a client turn was rejected: where the offending command starts, and its opcode. -/
inductive ValidationError where
  | unknownOpcode (offset : Nat) (opcode : UInt8)
  | truncated (offset : Nat) (opcode : UInt8)

namespace ValidationError

def offset : ValidationError → Nat
  | unknownOpcode n _ | truncated n _ => n

def opcode : ValidationError → UInt8
  | unknownOpcode _ op | truncated _ op => op

end ValidationError

/-- A client turn that passed validation: the payload to fan out, and how many commands were stripped. -/
structure ValidatedTurn where
  payload : Payload
  /-- A `u32` in the source, which a turn below 8 GiB does not exceed: a stripped command has two bytes. -/
  strippedControl : Nat

/-- The bounds check of one command: `rest` starts at `offset` with `opcode`. -/
def nextCommand (offset : Nat) (opcode : UInt8) (rest : List UInt8) : Except ValidationError (List UInt8) := do
  let length ← match classify opcode with
    | none => .error (.unknownOpcode offset opcode)
    | some (.fixed n) => .ok n
    | some (.variable stride) =>
      match rest[1]? with
      | none => .error (.truncated offset opcode)
      | some count => .ok (2 + stride * count.toNat)
  if length ≤ rest.length then .ok (rest.take length) else .error (.truncated offset opcode)

/-- The walk of `validate_turn` from `offset`: the copy so far, if any, and the count of stripped
    commands. A command has at least one byte, so the turn's length is enough fuel. -/
def validateLoop (commands : List UInt8) :
    Nat → Nat → Option (List UInt8) → Nat → Except ValidationError (Option (List UInt8) × Nat)
  | 0, _, forwarded, stripped => .ok (forwarded, stripped)
  | fuel + 1, offset, forwarded, stripped =>
    match commands.drop offset with
    | [] => .ok (forwarded, stripped)
    | opcode :: _ => do
        let command ← nextCommand offset opcode (commands.drop offset)
        if isStrippedFromLiveTurn command then
          -- the first stripped command copies the bytes before it
          validateLoop commands fuel (offset + command.length) (some (forwarded.getD (commands.take offset))) (stripped + 1)
        else
          validateLoop commands fuel (offset + command.length) (forwarded.map (· ++ command)) stripped

/-- Validate and sanitize one client turn, binding it to `slot`. -/
def validateTurn (slot : SlotId) (payload : Payload) : Except ValidationError ValidatedTurn := do
  let (forwarded, stripped) ← validateLoop payload.commands payload.commands.length 0 none 0
  .ok {
    payload := { payload with
      slot := slot.toWire
      bufferDirective := none
      commands := forwarded.getD payload.commands }
    strippedControl := stripped }

end RallyPoint.Relay
