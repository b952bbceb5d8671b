import RallyPoint.Relay.Sync.Turns

/-!
# `Relay.Maker.Buffer` — the buffer a relay has decided or adopted

The part of `relay/src/consensus/maker/mod.rs` and `maker/authority.rs` that numbers buffer decisions:
what a relay adopts from the directives it forwards. The control law that chooses a new buffer is not
part of it.
-/

namespace RallyPoint.Relay

open Lib

/-- What a maker keeps of the session's buffer. Decisions are numbered from 1: 0 means none yet. -/
structure BufferState where
  buffer : Nat
  decisionSeq : Nat
  decisionSeqTiebreak : Option U64

namespace BufferState

/-- The session starts at the least buffer of its bounds. -/
def new (boundsMin : Nat) : BufferState := ⟨boundsMin, 0, none⟩

/-- A newer directive gives the buffer. -/
def observeDirective (m : BufferState) (directive : BufferDirective) : BufferState :=
  let newer :=
    match compare (directive.decisionSeq : Nat) m.decisionSeq with
    | .gt => true
    | .eq => idBelow m.decisionSeqTiebreak directive.authorityRelayId
    | .lt => false
  if newer then
    { m with
        decisionSeq := directive.decisionSeq
        decisionSeqTiebreak := directive.authorityRelayId
        buffer := directive.bufferTurns }
  else m

end BufferState

end RallyPoint.Relay
