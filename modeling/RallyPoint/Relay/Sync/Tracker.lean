import RallyPoint.Lib.Majority
import RallyPoint.Relay.Sync.Turns

/-!
# `Relay.Sync.Tracker` — comparing the checksums

The model of `relay/src/consensus/sync/tracker.rs`: reports are filed under their ordinal; an ordinal is
judged once the furthest member has moved a margin past it and every member it requires has reported it;
a strict majority names the minority, and a split ends the comparison. The counters that throttle log
lines are left out.
-/

namespace RallyPoint.Relay

open Lib

def syncKindUnits : Nat := 1

def syncKindHeader : Nat := 2

def syncEvalMarginMin : Nat := 8

/-- The most ordinals in flight. -/
def syncWindow : Nat := 64

def syncAbsurdBufferMax : Nat := syncWindow / 2

def syncEvalMargin (boundsMax : Nat) : Nat := max (boundsMax + 2) syncEvalMarginMin

/-- The kind the native check ties to the ordinal's parity. -/
def expectedKindForOrdinal (ordinal : Nat) : Nat := if ordinal % 2 = 0 then syncKindUnits else syncKindHeader

structure SyncReport where
  value : SyncValue
  kind : Nat
  gameFrame : Option U32

/-- One origin's coverage of an ordinal. -/
inductive SyncObservation where
  | report (r : SyncReport)
  | skipped

/-- One compared slot's progress. -/
structure Member where
  nextExpected : Nat
  since : Nat

/-- A confirmed disagreement. -/
structure SyncDivergence where
  syncOrdinal : Nat
  gameFrame : Option U32
  noMajority : Bool
  diverged : List SlotId
  missing : List SlotId
deriving DecidableEq

/-- The authority's per-ordinal comparator. -/
structure SyncTracker where
  dormant : Bool
  initialized : Bool
  /-- The lowest ordinal still awaiting evaluation. -/
  baseOrdinal : Nat
  members : OrdMap SlotId Member
  pending : OrdMap Nat (OrdMap SlotId SyncObservation)
  excluded : Finset SlotId

namespace SyncTracker

variable (t : SyncTracker) (slot : SlotId) (ordinal : Nat)

/-- `SyncTracker::default`. -/
def empty : SyncTracker := ⟨false, false, 0, .empty, .empty, ∅⟩

/-- The observations filed under an ordinal; `or_default` of the source. -/
def observedAt : OrdMap SlotId SyncObservation := (t.pending.get? ordinal).getD .empty

/-- `entry(ordinal).or_default().entry(slot).or_insert(observation)`. -/
def file (slot : SlotId) (observation : SyncObservation) : SyncTracker :=
  let reports := t.observedAt ordinal
  { t with
      pending := t.pending.insert ordinal (if (reports.get? slot).isSome then reports else reports.insert slot observation) }

def recordSkipped (since : Nat) (skipped : SyncGap) : SyncTracker :=
  let first := max skipped.first t.baseOrdinal
  (List.range' first (skipped.stop - first)).foldl (fun t ordinal => if ordinal < since then t
    else t.file ordinal slot .skipped) t

/-- The slot leaves the compare set, with its reports. -/
def removeMember : SyncTracker :=
  { t with
      members := t.members.erase slot
      pending := t.pending.mapValues fun _ reports => reports.erase slot }

def excludeMember : SyncTracker := { t with excluded := insert slot t.excluded }.removeMember slot

def disableForAbsurdBounds : SyncTracker := { t with dormant := true }

/-- The reports of the kind the ordinal expects, by slot. -/
def comparable (observations : OrdMap SlotId SyncObservation) : List (SlotId × SyncValue) :=
  observations.entries.filterMap fun e =>
    match e.2 with
    | .report r => if r.kind = expectedKindForOrdinal ordinal then some (e.1, r.value) else none
    | .skipped => none

/-- The newest frame among the reports. -/
def newestFrame (observations : OrdMap SlotId SyncObservation) : Option U32 :=
  (observations.values.filterMap fun
    | .report r => r.gameFrame
    | .skipped => none).max?

/-- Compare the reports at a complete ordinal. The observations are ordered by slot, and so are the
    diverged slots. -/
def evaluate (observations : OrdMap SlotId SyncObservation) : SyncTracker × Option SyncDivergence :=
  let votes := comparable ordinal observations
  if votes.all fun vote => votes.head?.any (·.2 = vote.2) then (t, none)
  else
    match Majority.majority? votes.length votes with
    | some majority =>
      let diverged := (votes.filter (·.2 ≠ majority)).map (·.1)
      let t := diverged.foldl excludeMember t
      ({ t with dormant := t.dormant || decide (t.members.size < 2) },
        some ⟨ordinal, newestFrame observations, false, diverged, []⟩)
    | none =>
      ({ t with dormant := true }, some ⟨ordinal, newestFrame observations, true, [], []⟩)

/-- The furthest any member has reached. -/
def frontier : Option Nat := (t.members.values.map (·.nextExpected)).max?

/-- The members required at `base`: those that joined at or before it. -/
def required (base : Nat) : List SlotId := (t.members.entries.filter (·.2.since ≤ base)).map (·.1)

/-- `base_ordinal` moves past an ordinal that leaves `pending`. -/
def retire : SyncTracker :=
  { t with pending := t.pending.erase t.baseOrdinal, baseOrdinal := saturatingAdd u64Max t.baseOrdinal 1 }

/-- The loop of `evaluate_ready`. Each round moves the base one ordinal towards the frontier. -/
def evaluateLoop (margin : Nat) : Nat → SyncTracker → SyncTracker × Option SyncDivergence
  | 0, t => (t, none)
  | fuel + 1, t =>
    match t.frontier with
    | none => (t, none)
    | some frontier =>
      if frontier - t.baseOrdinal < margin then (t, none)
      else if t.required t.baseOrdinal = [] then evaluateLoop margin fuel t.retire
      else if (t.required t.baseOrdinal).all fun slot => ((t.observedAt t.baseOrdinal).get? slot).isSome then
        match t.retire.evaluate t.baseOrdinal (t.observedAt t.baseOrdinal) with
        | (t, some divergence) => (t, some divergence)
        | (t, none) => evaluateLoop margin fuel t
      else (t, none)

/-- Judge every ordinal that is ready, up to the first disagreement. -/
def evaluateReady (margin : Nat) : SyncTracker × Option SyncDivergence :=
  evaluateLoop margin (t.frontier.getD 0 - t.baseOrdinal) t

/-- The loop of `evict_over_window`: the oldest ordinal leaves while there are too many. -/
def evictLoop : Nat → SyncTracker → SyncTracker
  | 0, t => t
  | fuel + 1, t =>
    if t.pending.size ≤ syncWindow then t
    else match t.pending.entries.head? with
      | none => t
      | some (ordinal, _) =>
        let t := { t with pending := t.pending.erase ordinal }
        evictLoop fuel (if t.baseOrdinal ≤ ordinal then { t with baseOrdinal := saturatingAdd u64Max ordinal 1 } else t)

def evictOverWindow : SyncTracker := evictLoop t.pending.size t

/-- A fresh comparator starts at the first ordinal it is given. -/
def anchored : SyncTracker :=
  if t.initialized then t else { t with initialized := true, baseOrdinal := ordinal }

/-- The slot is a member from its first report on; its progress is monotone. -/
def join : SyncTracker × Member :=
  let next := saturatingAdd u64Max ordinal 1
  let member := (t.members.get? slot).getD ⟨next, ordinal⟩
  let member := { member with nextExpected := max member.nextExpected next }
  ({ t with members := t.members.insert slot member }, member)

def noteSkipped (since : Nat) : Option SyncGap → SyncTracker
  | some skipped => t.recordSkipped slot since skipped
  | none => t

/-- The end of `record`: judge what is ready; without a verdict, keep the window bounded. -/
def settle (margin : Nat) : SyncTracker × Option SyncDivergence :=
  match t.evaluateReady margin with
  | (t, some divergence) => (t, some divergence)
  | (t, none) => (t.evictOverWindow, none)

/-- File one report under its ordinal, then judge what is ready. -/
def record (report : SyncReport) (skipped : Option SyncGap) (margin : Nat) : SyncTracker × Option SyncDivergence :=
  if slot ∈ t.excluded then (t, none)
  else if report.kind ≠ syncKindUnits ∧ report.kind ≠ syncKindHeader then (t, none)
  else
    let (t, member) := (t.anchored ordinal).join slot ordinal
    -- the interval has already retired: the member keeps its progress
    if ordinal < t.baseOrdinal then (t, none)
    -- a second report of the slot at this ordinal changes nothing
    else ((t.noteSkipped slot member.since skipped).file ordinal slot (.report report)).settle margin

end SyncTracker

end RallyPoint.Relay
