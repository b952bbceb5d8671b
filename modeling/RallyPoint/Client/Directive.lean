import RallyPoint.Proto.Messages

/-!
# `Client.Directive` — buffer changes on the client

The model of `client/src/directive.rs`: the tracker that picks the winning directive from the copies on
received turns and surfaces it at its frame, and the loop that feeds it: at each frame first the stamps
received, then one poll.
-/

namespace RallyPoint.Client

open Lib

structure DirectiveTracker where
  highestSeq : Nat
  highestSeqTiebreak : Option U64
  pending : Option BufferDirective

namespace DirectiveTracker

def new : DirectiveTracker := ⟨0, none, none⟩

/-- The newest decision displaces the pending one, even when it is itself too late to apply. -/
def observe (t : DirectiveTracker) (directive : BufferDirective) (nextFrame : Nat) : DirectiveTracker :=
  match compare (directive.decisionSeq : Nat) t.highestSeq with
  | .lt => t
  | .eq => if !idBelow t.highestSeqTiebreak directive.authorityRelayId then t else adopt directive
  | .gt => adopt directive
where
  adopt (directive : BufferDirective) : DirectiveTracker :=
    { highestSeq := directive.decisionSeq
      highestSeqTiebreak := directive.authorityRelayId
      pending := if nextFrame ≤ directive.applyAtFrame then some directive else none }

def takeDue (t : DirectiveTracker) (nextFrame : Nat) : DirectiveTracker × Option BufferDirective :=
  match t.pending with
  | some directive => if directive.applyAtFrame ≤ nextFrame then ({ t with pending := none }, some directive) else (t, none)
  | none => (t, none)

end DirectiveTracker

/-- The tracker and what it surfaced with the frame, after the frames below `n`. `stamps f` are those
    received for frame `f`. -/
def play (stamps : Nat → List BufferDirective) : Nat → DirectiveTracker × List (Nat × BufferDirective)
  | 0 => (.new, [])
  | n + 1 =>
    let (t, surfaced) := play stamps n
    let (t, due) := ((stamps n).foldl (fun t d => t.observe d n) t).takeDue n
    (t, surfaced ++ due.toList.map (n, ·))

end RallyPoint.Client
