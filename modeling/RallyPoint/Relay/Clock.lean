import RallyPoint.Lib.Jumps
import RallyPoint.Lib.Word

/-!
# `Relay.Clock` — a rollback session's clock

The model of `relay/src/consensus/clock.rs`: when each turn is due at a relay, and where the clock stood
still. A relay's copy is anchored once, notes the stops it makes as the authority, and merges the copies
of the other relays.

A duration is a number of nanoseconds and an instant one of a relay's own time; relays share no timebase.
All of this arithmetic, and that of the steps, is taken to be in range: nothing saturates.
-/

namespace RallyPoint.Relay

open Lib

def lockstepStartSteps : Nat := 24

def stepDurationUs : Nat := 42000

/-- The last of the lockstep start. -/
def anchorStep : Nat := lockstepStartSteps - 1

def leadSeenSeqs : Nat := 128

/-- How far the clock may run past the newest confirmable step. -/
def stallSlackSteps : Nat := 6

/-- How far behind its limit the clock keeps each stop by step. -/
def keptStopSteps : Nat := leadSeenSeqs + stallSlackSteps

def fromMicros (us : Nat) : Nat := us * 1000

def wholeMicros (duration : Nat) : Nat := duration / 1000

def stepsDuration (steps : Nat) : Nat := fromMicros (stepDurationUs * steps)

/-- The clock stood still at `step` for `pause`. -/
structure Stop where
  step : Nat
  pause : Nat
deriving DecidableEq

/-- The stops of a clock as jumps of the stopped time. -/
def stopJumps : Jumps Stop where
  place := Stop.step
  amount := Stop.pause
  jump := Stop.mk
  place_jump := fun _ _ => rfl
  amount_jump := fun _ _ => rfl
  jump_eta := fun _ => rfl

/-- A stop on the wire. -/
structure ClockStop where
  step : Nat
  pauseUs : Nat
deriving DecidableEq

/-- A copy of the clock on the wire. -/
structure SessionClockFrame where
  anchorStep : Nat
  sinceAnchorUs : Nat
  finalThrough : Nat
  baseStep : Nat
  basePauseUs : Nat
  stops : List ClockStop
deriving DecidableEq

/-! ## Another relay's stops -/

/-- The stops another relay's copy of the clock carries. -/
structure CopiedStops where
  baseStep : Nat
  basePause : Nat
  stops : List Stop

namespace CopiedStops

def fromFrame (frame : SessionClockFrame) : CopiedStops where
  baseStep := frame.baseStep
  basePause := fromMicros frame.basePauseUs
  stops :=
    (((frame.stops.filter fun stop => frame.baseStep ≤ stop.step ∧ stop.step ≤ frame.finalThrough).map
      fun stop => ⟨stop.step, fromMicros stop.pauseUs⟩).insertionSort fun a b => a.step ≤ b.step)

/-- Nothing is known before the base but a sum. -/
def pauseBefore (c : CopiedStops) (step : Nat) : Nat :=
  if step < c.baseStep then 0
  else c.basePause + ((c.stops.takeWhile fun stop => stop.step < step).map Stop.pause).sum

end CopiedStops

/-! ## A relay's copy -/

/-- One relay's copy of the clock. -/
structure SessionClock where
  /-- The anchor turn and the instant it was due. -/
  anchor : Option (Nat × Int)
  /-- The limit: the newest step whose deadline is final. -/
  finalThrough : Nat
  /-- Stops before this step are kept as their sum only. -/
  baseStep : Nat
  basePause : Nat
  stops : List Stop
deriving DecidableEq

namespace SessionClock

variable (c : SessionClock)

/-- `SessionClock::default`. -/
def empty : SessionClock := ⟨none, 0, 0, 0, []⟩

/-- The stopped time before a step. -/
def pauseBefore (step : Nat) : Nat := c.basePause + stopJumps.before c.stops step

def dueAt (seq : Nat) : Option Int :=
  match c.anchor with
  | none => none
  | some (anchorSeq, at_) =>
    match checkedSub seq anchorSeq with
    | none => none
    | some after =>
      if c.finalThrough < seq ∨ seq < c.baseStep then none
      else some (at_ + c.pauseBefore seq + stepsDuration after)

/-- `anchor`, with whether it anchored. -/
def anchorAt (newest : Nat) (due : Int) : SessionClock × Bool :=
  match c.anchor with
  | some _ => (c, false)
  | none =>
    ({ c with
        anchor := some (anchorStep, due - stepsDuration (newest - anchorStep))
        finalThrough := max newest anchorStep + stallSlackSteps }, true)

/-- The stopped time past the limit becomes at least `stood` more than before it. -/
def standAtLimit (stood : Nat) : SessionClock × Bool :=
  let limit := c.finalThrough
  let atLeast := c.pauseBefore limit + stood
  let past := c.pauseBefore (limit + 1)
  if atLeast ≤ past then (c, false)
  else
    let stops := match c.stops.getLast? with
      | some stop =>
        if stop.step = limit then c.stops.dropLast ++ [{ stop with pause := stop.pause + (atLeast - past) }]
        else c.stops ++ [⟨limit, atLeast - past⟩]
      | none => c.stops ++ [⟨limit, atLeast - past⟩]
    ({ c with stops }, true)

/-- The stops too far behind the limit are kept as the base's sum only. -/
def fold : SessionClock :=
  let base := c.finalThrough - keptStopSteps
  { c with
      basePause := c.basePause + ((c.stops.takeWhile fun stop => stop.step < base).map Stop.pause).sum
      stops := c.stops.dropWhile fun stop => stop.step < base
      baseStep := max c.baseStep base }

/-- `now.checked_duration_since(due).unwrap_or_default()`. -/
def durationSince (now due : Int) : Nat := (now - due).toNat

/-- `note_confirmable` on an anchored copy that has brought its limit up: the clock stands at its limit
    until now, then goes on. -/
def goOnTo (limit : Nat) (now : Int) : SessionClock × Bool :=
  if limit ≤ c.finalThrough then (c, false)
  else
    let stood := match c.dueAt c.finalThrough with
      | some due => durationSince now due
      | none => 0
    let (c, stopped) := c.standAtLimit stood
    ({ c with finalThrough := limit }.fold, stopped)

def noteConfirmable (newestBefore : Option Nat) (newest : Nat) (now : Int) : SessionClock × Bool :=
  if c.anchor = none then (c, false)
  else
    -- a promoted authority brings the limit up to what it has confirmed itself, with no stop
    match newestBefore with
    | some before =>
      { c with finalThrough := max c.finalThrough (before + stallSlackSteps) }.goOnTo (newest + stallSlackSteps) now
    | none => c.goOnTo (newest + stallSlackSteps) now

def toFrame (now : Int) : Option SessionClockFrame :=
  match c.anchor with
  | none => none
  | some (step, at_) =>
    some {
      anchorStep := step
      sinceAnchorUs := wholeMicros (durationSince now at_)
      finalThrough := c.finalThrough
      baseStep := c.baseStep
      basePauseUs := wholeMicros c.basePause
      stops := c.stops.map fun stop => ⟨stop.step, wholeMicros stop.pause⟩ }

/-- The steps after which the merged stopped time can grow: the frontier, and later ones after which
    either copy's grows. -/
def mergeSteps (theirs : CopiedStops) : List Nat :=
  sortDedup ((c.stops.map Stop.step ++ theirs.stops.map Stop.step ++ (checkedSub theirs.baseStep 1).toList ++
    [c.finalThrough]).filter fun step => c.finalThrough ≤ step)

/-- The stops of a merge: this copy's before its limit, then the growth of the further of the two. -/
def mergeStops (theirs : CopiedStops) : List Stop :=
  (c.stops.filter fun stop => stop.step < c.finalThrough) ++
    stopJumps.growth (fun step => max (c.pauseBefore step) (theirs.pauseBefore step))
      (c.pauseBefore c.finalThrough) (c.mergeSteps theirs)

/-- `merge`, with whether this copy changed. -/
def merge (frame : SessionClockFrame) (receivedAt : Int) (meshRttFloorUs : Nat) : SessionClock × Bool :=
  let theirs := CopiedStops.fromFrame frame
  match c.anchor with
  | none =>
    let age := fromMicros frame.sinceAnchorUs + fromMicros (meshRttFloorUs / 2)
    ({ anchor := some (frame.anchorStep, receivedAt - age)
       finalThrough := frame.finalThrough
       baseStep := theirs.baseStep
       basePause := theirs.basePause
       stops := theirs.stops }, true)
  | some (step, _) =>
    -- a frame anchored at another step is ignored
    if frame.anchorStep ≠ step then (c, false)
    else
      let merged := c.mergeStops theirs
      let changed : Bool := merged ≠ c.stops ∨ c.finalThrough < frame.finalThrough
      ({ c with stops := merged, finalThrough := max c.finalThrough frame.finalThrough }.fold, changed)

end SessionClock

end RallyPoint.Relay
