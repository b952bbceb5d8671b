import RallyPoint.Lib.Trace
import RallyPoint.Relay.Sync.Tracker

/-!
# `Relay.Sync.Hashes` — comparing state hashes in rollback sessions

The model of `relay/src/consensus/sync/hashes.rs`: reports of a step's hash are held until the step is
confirmable and complete or past its deadline; it is then judged, and judged again when a late report
arrives or its hold runs out. Instants and durations are nanoseconds; the counters that throttle log
lines are left out.

Two sums of `note_forwarded` are unchecked in the source. A call that would overflow them answers `none`
here.
-/

namespace RallyPoint.Relay

open Lib

def stateHashInterval : Nat := 8

/-- `STATE_HASH_DEADLINE`, five seconds. -/
def stateHashDeadline : Nat := 5000000000

def stateHashLiveTurns : Nat := 96

def stateHashWindow : Nat := 64

/-- The reports of a step: who reported which hash. -/
abbrev HashReports := List (SlotId × Nat)

/-- A report is added unless the slot has one already; the flag says whether it was. -/
def HashReports.file (reports : HashReports) (slot : SlotId) (hash : Nat) : HashReports × Bool :=
  if reports.any (·.1 = slot) then (reports, false) else (reports ++ [(slot, hash)], true)

/-- One step's reports, when the newest arrived, and when it became confirmable. -/
structure PendingStep where
  reports : HashReports
  newestReportAt : Option Nat
  confirmableAt : Option Nat

/-- `PendingStep::default`. -/
def PendingStep.empty : PendingStep := ⟨[], none, none⟩

/-- A report arrives for the step. -/
def PendingStep.file (p : PendingStep) (slot : SlotId) (hash now : Nat) : PendingStep :=
  let newest := p.newestReportAt.getD now
  let (reports, added) := p.reports.file slot hash
  { p with reports, newestReportAt := some (if added then max newest now else newest) }

/-- The step's deadline starts, unless it has. -/
def PendingStep.confirm (p : PendingStep) (now : Nat) : PendingStep :=
  { p with confirmableAt := some (p.confirmableAt.getD now) }

/-- A step past its deadline or with every report in. -/
structure JudgedStep where
  reports : HashReports
  holdFrom : Nat
  dirty : Bool
  held : Bool

def JudgedStep.holdIsOver (j : JudgedStep) (now : Nat) : Bool := decide (j.holdFrom + stateHashDeadline ≤ now)

/-- A report arrives for the step. -/
def JudgedStep.file (j : JudgedStep) (slot : SlotId) (hash now : Nat) : JudgedStep :=
  let (reports, added) := j.reports.file slot hash
  { j with
      reports
      holdFrom := if added then max j.holdFrom now else j.holdFrom
      dirty := j.dirty || added }

/-- What judging a step's reports came to. -/
inductive Judgment where
  | undecided
  | decided (verdict : Option SyncDivergence)

structure StateHashTracker where
  pending : OrdMap Nat PendingStep
  judged : OrdMap Nat JudgedStep
  forwarded : SlotId → Nat
  confirmableUntil : Nat
  retiredBelow : Nat
  excluded : Finset SlotId
  dormant : Bool

namespace StateHashTracker

variable (t : StateHashTracker) (now : Nat) (required : Finset SlotId)

/-- `StateHashTracker::default`. -/
def empty : StateHashTracker := ⟨.empty, .empty, fun _ => 0, 0, 0, ∅, false⟩

/-! ## Reports and forwarded turns -/

/-- The loop of `evict_over_window`: the oldest step in flight is dropped while there are too many. -/
def evictLoop : Nat → StateHashTracker → StateHashTracker
  | 0, t => t
  | fuel + 1, t =>
    if t.pending.size ≤ stateHashWindow then t
    else match t.pending.entries.head? with
      | none => t
      | some (step, _) =>
        evictLoop fuel { t with pending := t.pending.erase step, retiredBelow := max t.retiredBelow (step + 1) }

def evictOverWindow : StateHashTracker := evictLoop t.pending.size t

/-- The step was retired: it is below `retired_below` and no longer pending. -/
def retired (step : Nat) : Bool := decide (step < t.retiredBelow) && (t.pending.get? step).isNone

/-- The newest step a report is taken for. -/
def horizon : Nat := saturatingAdd u64Max t.confirmableUntil (stateHashWindow * stateHashInterval)

/-- Steps that are reported: the positive multiples of the interval. -/
def onInterval (step : Nat) : Bool := decide (stateHashInterval ≤ step) && decide (step % stateHashInterval = 0)

/-- A report goes to its judged step if the step is retired, else to its pending one. -/
def fileReport (slot : SlotId) (step hash now : Nat) : StateHashTracker :=
  match t.judged.get? step, t.retired step with
  | some judged, true => { t with judged := t.judged.insert step (judged.file slot hash now) }
  | _, _ =>
    { t with pending := t.pending.insert step (((t.pending.get? step).getD .empty).file slot hash now) }

def record (slot : SlotId) (step hash now : Nat) : StateHashTracker :=
  if t.dormant ∨ slot ∈ t.excluded then t
  else if !onInterval step ∨ (t.retired step ∧ (t.judged.get? step).isNone) ∨ t.horizon < step then t
  else (t.fileReport slot step hash now).evictOverWindow

/-- `next_multiple_of`, checked. -/
def nextMultipleOf (a b : Nat) : Option Nat := if a % b = 0 then some a else checkedAdd u64Max a (b - a % b)

/-- The loop of `note_forwarded`: every step up to `until'` starts its deadline. -/
def confirmSteps (now until' : Nat) : Nat → Nat → OrdMap Nat PendingStep → Option (OrdMap Nat PendingStep)
  | 0, _, pending => some pending
  | fuel + 1, step, pending =>
    if step ≤ until' then
      match checkedAdd u64Max step stateHashInterval with
      | some next =>
        confirmSteps now until' fuel next (pending.insert step (((pending.get? step).getD .empty).confirm now))
      | none => none
    else some pending

/-- How many turns of every required slot have been forwarded. -/
def forwardedByAll (required : List SlotId) : Nat :=
  (((required.filter (· ∉ t.excluded)).map t.forwarded).min?).getD 0

def noteForwarded (slot : SlotId) (count now : Nat) (required : List SlotId) : Option StateHashTracker :=
  let t := { t with forwarded := Function.update t.forwarded slot (max (t.forwarded slot) count) }
  let until' := t.forwardedByAll required
  if until' ≤ t.confirmableUntil then some t
  else do
    let first ← nextMultipleOf (t.confirmableUntil + 1) stateHashInterval
    let first := max (max first stateHashInterval) t.retiredBelow
    -- a round moves the step on, so there are at most as many as numbers up to `until'`
    let pending ← confirmSteps now until' (until' + 1 - first) first t.pending
    some { t with pending, confirmableUntil := until' }.evictOverWindow

/-! ## Judging -/

/-- The required slots still taking part. -/
def takingPart (required : Finset SlotId) : Finset SlotId := required \ t.excluded

/-- The reports that count. -/
def counted (reports : HashReports) (required : Finset SlotId) : HashReports :=
  reports.filter (·.1 ∈ t.takingPart required)

/-- The slots at fault for a missing report: those that kept sending turns well past the step. -/
def withholding (step : Nat) (reports : HashReports) (required : Finset SlotId) : List SlotId :=
  SlotId.sorted ((t.takingPart required).filter fun slot =>
    ¬ reports.any (·.1 = slot) ∧ saturatingAdd u64Max step stateHashLiveTurns ≤ t.forwarded slot)

/-- The hash the verdict trusts: `none`, wait for more reports; `some none`, there is none. -/
def trusted (voters : Nat) (reports : HashReports) (settle : Bool) : Option (Option Nat) :=
  if reports.all fun report => reports.head?.any (·.2 = report.2) then some (Majority.majority? reports.length reports)
  else match Majority.majority? voters reports with
    | some majority => some (some majority)
    | none =>
      if reports.length < voters ∧ !settle then none else some (Majority.majority? reports.length reports)

/-- Two hashes cannot both have a strict majority, so the order of the groups does not matter. -/
def judge (step : Nat) (reports : HashReports) (required : Finset SlotId) (settle : Bool) : StateHashTracker × Judgment :=
  let reports := t.counted reports required
  let missing := t.withholding step reports required
  if (reports.all fun report => reports.head?.any (·.2 = report.2)) ∧ missing = [] then (t, .decided none)
  else
    match trusted ((t.takingPart required).card - missing.length) reports settle with
    | none => (t, .undecided)
    | some none => ({ t with dormant := true }, .decided (some ⟨step, none, true, [], missing⟩))
    | some (some majority) =>
      let group := (reports.filter (·.2 = majority)).map (·.1)
      let diverged := ((reports.map (·.1)).filter (· ∉ group)).insertionSort (· ≤ ·)
      let t := { t with excluded := t.excluded ∪ (diverged ++ missing).toFinset }
      ({ t with dormant := t.dormant || decide ((t.takingPart required).card < 2) },
        .decided (some ⟨step, none, false, diverged, missing⟩))

/-- `judge_step`, with the verdict it adds. -/
def judgeStep (step now : Nat) (required : Finset SlotId) (settle : Bool) : StateHashTracker × List SyncDivergence :=
  match t.judged.get? step with
  | none => (t, [])
  | some judged =>
    match t.judge step judged.reports required (settle || judged.holdIsOver now) with
    | (t, .undecided) => ({ t with judged := t.judged.insert step { judged with dirty := false, held := true } }, [])
    | (t, .decided verdict) =>
      ({ t with judged := t.judged.insert step { judged with dirty := false, held := false } }, verdict.toList)

/-- The first loop of `judge_ready`: the judged steps that are due again. -/
def rejudge (now : Nat) (required : Finset SlotId) : List Nat → StateHashTracker → StateHashTracker × List SyncDivergence
  | [], t => (t, [])
  | step :: due, t =>
    if t.dormant then (t, [])
    else
      let (t, verdict) := t.judgeStep step now required false
      let (t, verdicts) := rejudge now required due t
      (t, verdict ++ verdicts)

/-- The judged steps that gained a report or have been undecided long enough. -/
def due : List Nat :=
  (t.judged.entries.filter fun e => e.2.dirty || (e.2.held && e.2.holdIsOver now)).map (·.1)

/-- Whether a pending step is judged now. -/
def isReady (p : PendingStep) : Bool :=
  match p.confirmableAt with
  | none => false
  | some confirmableAt =>
    decide (∀ slot ∈ t.takingPart required, p.reports.any (·.1 = slot)) || decide (stateHashDeadline ≤ now - confirmableAt)

/-- A pending step becomes a judged one. -/
def retireStep (step now : Nat) (p : PendingStep) : StateHashTracker :=
  let deadline := p.confirmableAt.getD now + stateHashDeadline
  { t with
      pending := t.pending.erase step
      retiredBelow := max t.retiredBelow (step + 1)
      judged := t.judged.insert step ⟨p.reports, (p.newestReportAt.map (max · deadline)).getD deadline, false, false⟩ }

/-- The inner loop of `judge_ready`: the oldest judged step is dropped while there are too many, decided
    first if held. -/
def trimJudged (now : Nat) (required : Finset SlotId) : Nat → StateHashTracker → StateHashTracker × List SyncDivergence
  | 0, t => (t, [])
  | fuel + 1, t =>
    if t.judged.size ≤ stateHashWindow ∨ t.dormant then (t, [])
    else match t.judged.entries.head? with
      | none => (t, [])
      | some (oldest, judged) =>
        let (t, verdict) := if judged.held then t.judgeStep oldest now required true else (t, [])
        let (t, verdicts) := trimJudged now required fuel { t with judged := t.judged.erase oldest }
        (t, verdict ++ verdicts)

/-- The second loop of `judge_ready`: the pending steps that are ready, oldest first. -/
def judgePending (now : Nat) (required : Finset SlotId) : Nat → StateHashTracker → StateHashTracker × List SyncDivergence
  | 0, t => (t, [])
  | fuel + 1, t =>
    if t.dormant then (t, [])
    else match t.pending.entries.find? fun e => t.isReady now required e.2 with
      | none => (t, [])
      | some (step, p) =>
        let (t, verdict) := (t.retireStep step now p).judgeStep step now required false
        let (t, trimmed) := trimJudged now required t.judged.size t
        let (t, verdicts) := judgePending now required fuel t
        (t, verdict ++ trimmed ++ verdicts)

/-- Each round of the second loop takes a step out of `pending`, so there are at most `pending.size`. -/
def judgeReady : StateHashTracker × List SyncDivergence :=
  let (t, rejudged) := rejudge now required (t.due now) t
  let (t, judged) := judgePending now required t.pending.size t
  (t, rejudged ++ judged)

end StateHashTracker

/-! ## Runs -/

/-- One call on a session's hash comparator. -/
inductive HashOp where
  | record (slot : SlotId) (step hash now : Nat)
  | noteForwarded (slot : SlotId) (count now : Nat) (required : List SlotId)
  | judgeReady (now : Nat) (required : Finset SlotId)

/-- The call's effect and verdicts; after a call that does not return there is no comparator. -/
def HashOp.apply : Option StateHashTracker → HashOp → Option StateHashTracker × List SyncDivergence
  | none, _ => (none, [])
  | some t, record slot step hash now => (some (t.record slot step hash now), [])
  | some t, noteForwarded slot count now required => (t.noteForwarded slot count now required, [])
  | some t, judgeReady now required => (t.judgeReady now required).map some id

namespace StateHashTracker

/-- The comparator after the calls `ops`. -/
def after (ops : List HashOp) : Option StateHashTracker := (Trace.run HashOp.apply (some empty) ops).1

/-- Every verdict returned by the calls `ops`, in order. -/
def verdicts (ops : List HashOp) : List SyncDivergence := (Trace.run HashOp.apply (some empty) ops).2.flatMap (·.2)

end StateHashTracker

end RallyPoint.Relay
