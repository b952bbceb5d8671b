import Mathlib.Data.List.Basic

/-!
# `Proto.Commands` — the turn-command table

The model of `proto/src/commands.rs`: how long a native turn command is, told by its opcode and, for the
select commands, by the count byte after it.
-/

namespace RallyPoint.Proto

/-- How long a command is, given its opcode. -/
inductive CommandLength where
  /-- A total length in bytes, the opcode included. -/
  | fixed (n : Nat)
  /-- A count-prefixed command: `2 + stride * count` bytes, the count being the second byte. -/
  | variable (stride : Nat)

/-- Fixed command lengths by opcode. `0` marks a rejected opcode, or one of the six select opcodes, which
    `classify` resolves first. -/
def fixedLen : List Nat :=
  [ 0, 0, 0, 0, 0, 1, 0, 0, 1, 0, 0, 0, 8, 3, 5, 2, 1, 1, 5, 3, 10, 11, 0, 0, 1, 1, 2, 1, 1, 1, 2, 3,
    3, 2, 2, 3, 0, 2, 2, 1, 2, 3, 1, 2, 2, 2, 1, 5,
    2, 1, 2, 1, 1, 3, 1, 7, 0, 0, 0, 0, 0, 0, 0, 0,
    0, 0, 0, 0, 0, 0, 0, 0, 0, 0, 0, 0, 0, 0, 0, 0,
    0, 0, 0, 0, 0, 2, 10, 2, 5, 0, 1, 0, 82, 5, 0, 2,
   12, 13, 5, 0, 0, 0, 4, 0]

/-- The length rule of an opcode, or `none` for one that is not a known command. -/
def classify (id : UInt8) : Option CommandLength :=
  if 0x09 ≤ id ∧ id ≤ 0x0B then some (.variable 2)
  else if 0x63 ≤ id ∧ id ≤ 0x65 then some (.variable 4)
  else match fixedLen.getD id.toNat 0 with
    | 0 => none
    | n + 1 => some (.fixed (n + 1))

/-- The length of the command at the start of `buf`, if it can be told. -/
def commandLength (buf : List UInt8) : Option Nat := do
  let id ← buf.head?
  match ← classify id with
  | .fixed n => some n
  | .variable stride => do
      let count ← buf[1]?
      some (2 + stride * count.toNat)

end RallyPoint.Proto
