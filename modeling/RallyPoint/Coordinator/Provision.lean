import RallyPoint.Coordinator.Session.Setup

/-!
# `Coordinator.Provision` — the loop that drains relays

The model of `coordinator/src/provision/reconcile`: one pass of the reconcile loop as far as it drains
relays. It takes a snapshot of the enrolled relays, notes which are idle or past their age, then for each
region retires the aged ones that have a replacement and scales down to the target, and in the end
finishes drains begun before.

There is one loop, so where it stands (`LoopPoint`) is part of its state, and `step` takes it from one
place where others may run to the next. What only the outside decides is the input of the step: the
clock, a region's target, which calls of the ledger fail, and whether the provisioner panics, which ends
the tick. Launching relays writes to the ledger only; the sweeps that retire relays which are gone are
calls of their own.
-/

namespace RallyPoint.Coordinator

open Lib

/-! ## What the loop reads off the ledger -/

namespace RelayLedger

variable {δ : Type}

/-- `launch_times`, of one id. -/
def launchTime (l : RelayLedger δ) (relay : RelayId) : Option U64 :=
  (l.rows relay).bind fun row => if row.retiredAt = none then some row.launchedAt else none

/-- `bound_unretired`, as ids. -/
def boundUnretired (l : RelayLedger δ) : List RelayId :=
  (List.range l.nextId).filter fun id => (l.rows id).any fun row => row.retiredAt.isNone && row.certFingerprint.isSome

end RelayLedger

/-! ## Ages -/

/-- `mix`, splitmix64's finalizer. -/
def mix (id : Nat) : Nat :=
  let z : BitVec 64 := BitVec.ofNat 64 id + 0x9E3779B97F4A7C15
  let z := (z ^^^ (z >>> 30)) * 0xBF58476D1CE4E5B9
  let z := (z ^^^ (z >>> 27)) * 0x94D049BB133111EB
  (z ^^^ (z >>> 31)).toNat

def ageLimitSecs (maxAge : Nat) (relay : RelayId) : Nat :=
  let spread := maxAge / 6
  if spread = 0 then maxAge else maxAge - spread / 2 + mix relay % spread

/-! ## Drains under the assignment lock -/

namespace SessionSetup

variable {δ : Type} (s : SessionSetup) (l : RelayLedger δ) (fails : Bool) (now : U64)

/-- `tombstone_locked`: `retire_relay`, and whether it succeeded. -/
def tombstoneLocked (relay : RelayId) : SessionSetup × RelayLedger δ × Bool :=
  match l.retire fails now relay with
  | (l, .ok ()) => (s.forgetRelay relay, l, true)
  | (l, .error _) => (s, l, false)

/-- `try_drain_one`, up to where it gives up the lock. -/
def tryDrainOne (region : RegionId) (target : Nat) (relay : RelayId) (generation : Nat) :
    SessionSetup × RelayLedger δ × Bool :=
  if s.registry.availableInRegion region ≤ target then (s, l, false)
  else match s.registry.markDraining relay generation with
    | (_, false) => (s, l, false)
    | (registry, true) =>
      let marked := { s with registry }
      let spared := { s with registry := (registry.clearDraining relay generation).1 }
      if marked.sessionCountForRelay relay ≠ 0 then (spared, l, false)
      else match marked.tombstoneLocked l fails now relay with
        | (drained, l, true) => (drained, l, true)
        | (_, l, false) => (spared, l, false)

/-- The locked part of `retire_aged` for one relay: `none` if it is left, else whether it was tombstoned. -/
def retireAgedOne (replacements : List RelayId) (relay : EnrolledRelay) : SessionSetup × RelayLedger δ × Option Bool :=
  if !relay.draining && !replacements.any s.registry.isAvailable then (s, l, none)
  else match s.registry.markDraining relay.relayId relay.generation with
    | (_, false) => (s, l, none)
    | (registry, true) =>
      let marked := { s with registry }
      if marked.sessionCountForRelay relay.relayId ≠ 0 then (marked, l, some false)
      else
        let (s, l, tombstoned) := marked.tombstoneLocked l fails now relay.relayId
        (s, l, some tombstoned)

/-- The locked part of `finish_drains` for one relay. -/
def finishDrainOne (relay : EnrolledRelay) : SessionSetup × RelayLedger δ × Bool :=
  if s.registry.isDrainingAt relay.relayId relay.generation && s.sessionCountForRelay relay.relayId = 0 then
    s.tombstoneLocked l fails now relay.relayId
  else (s, l, false)

end SessionSetup

/-! ## The loop -/

structure ProvisionConfig where
  regions : List RegionId
  idleGrace : Nat
  maxRelayAge : Option Nat

/-- Where the loop stands. -/
inductive LoopPoint where
  /-- Between two ticks. -/
  | sleeping
  /-- The snapshot is taken. -/
  | snapshotted
  /-- The idle timers are refreshed. -/
  | refreshed
  /-- At the head of the loop over the regions, with those that are left. -/
  | regions (regions : List RegionId)
  /-- In `retire_aged`, with the relays of the snapshot that are left. -/
  | retiring (region : RegionId) (target : Nat) (replacements : List RelayId)
      (relays : List EnrolledRelay) (regions : List RegionId)
  /-- In `scale_down`, with the candidates that are left. -/
  | scaling (region : RegionId) (target live : Nat) (candidates : List (RelayId × Nat)) (regions : List RegionId)
  /-- In `finish_drains`, after it read the ledger. -/
  | bound (unretired : List RelayId)
  /-- In `finish_drains`, with the relays that are left. -/
  | finishing (relays : List EnrolledRelay)

structure ProvisionLoop where
  config : ProvisionConfig
  idleSince : RelayId → Option Nat
  /-- The snapshot of this tick. -/
  enrolled : List EnrolledRelay
  aged : List RelayId
  /-- The clock of this tick. -/
  now : Nat
  point : LoopPoint

/-- What the outside decides in one step of the loop. -/
structure LoopInput where
  now : U64
  target : Nat
  readFails : Bool
  retireFails : Bool
  panics : Bool

namespace ProvisionLoop

variable {δ : Type} (p : ProvisionLoop)

def new (config : ProvisionConfig) : ProvisionLoop := ⟨config, fun _ => none, [], [], 0, .sleeping⟩

def refreshIdle (s : SessionSetup) : RelayId → Option Nat := fun relay =>
  if p.enrolled.any (·.relayId = relay) then
    if s.sessionCountForRelay relay = 0 then p.idleSince relay <|> some p.now else none
  else none

def agedRelays (l : RelayLedger δ) (readFails : Bool) : List RelayId :=
  match p.config.maxRelayAge with
  | none => []
  | some maxAge =>
    if readFails then []
    else (p.enrolled.filter fun r => (l.launchTime r.relayId).any fun at_ =>
      ageLimitSecs maxAge r.relayId ≤ p.now - at_).map (·.relayId)

/-- Not draining, and in the region. -/
def live (region : RegionId) (r : EnrolledRelay) : Bool := !r.draining && r.region = some region

/-- The replacements `retire_aged` counts on. -/
def replacements (region : RegionId) : List RelayId :=
  (p.enrolled.filter fun r => live region r && !p.aged.contains r.relayId).map (·.relayId)

/-- The candidates of `scale_down`, the longest idle first. -/
def scaleDownCandidates (region : RegionId) : List (RelayId × Nat) :=
  let idle := (p.enrolled.filter (live region)).filterMap fun r => do
    let since ← p.idleSince r.relayId
    if p.config.idleGrace ≤ p.now - since then some (r, p.now - since) else none
  (idle.insertionSort fun a b => b.2 ≤ a.2).map fun e => (e.1.relayId, e.1.generation)

/-- The relay counts as draining for the rest of the tick. -/
def noteDraining (relay : RelayId) : ProvisionLoop :=
  { p with enrolled := p.enrolled.map fun r => if r.relayId = relay then { r with draining := true } else r }

/-- `stop_retired`, and on to the next place. A panic ends the tick. -/
def stopRetired (panics : Bool) (relay : RelayId) (next : LoopPoint) : ProvisionLoop :=
  if panics then { p with point := .sleeping }
  else { p with idleSince := Function.update p.idleSince relay none, point := next }

/-- One step of the loop, with the relay it drained. -/
def step (input : LoopInput) (s : SessionSetup) (l : RelayLedger δ) :
    ProvisionLoop × SessionSetup × RelayLedger δ × Option RelayId :=
  match p.point with
  | .sleeping =>
    -- a tick with an unusable clock is skipped
    if (input.now : Nat) = u64Max then (p, s, l, none)
    else ({ p with enrolled := s.registry.enrolledRelays, now := input.now, point := .snapshotted }, s, l, none)
  | .snapshotted => ({ p with idleSince := p.refreshIdle s, point := .refreshed }, s, l, none)
  | .refreshed => ({ p with aged := p.agedRelays l input.readFails, point := .regions p.config.regions }, s, l, none)
  | .regions [] =>
    ({ p with point := if input.panics || input.readFails then .sleeping else .bound l.boundUnretired }, s, l, none)
  | .regions (region :: regions) =>
    -- the scale-up may panic
    ({ p with
        point := if input.panics then .sleeping
          else .retiring region input.target (p.replacements region) p.enrolled regions },
      s, l, none)
  | .retiring region target _ [] regions =>
    let live := (p.enrolled.filter (live region)).length
    ({ p with point := .scaling region target live (if live ≤ target then [] else p.scaleDownCandidates region) regions },
      s, l, none)
  | .retiring region target replacements (relay :: relays) regions =>
    let next := LoopPoint.retiring region target replacements relays regions
    if relay.region ≠ some region ∨ relay.relayId ∉ p.aged ∨ (!relay.draining && replacements.isEmpty) then
      ({ p with point := next }, s, l, none)
    else match s.retireAgedOne l input.retireFails input.now replacements relay with
      | (s, l, none) => ({ p with point := next }, s, l, none)
      | (s, l, some false) => ({ p.noteDraining relay.relayId with point := next }, s, l, none)
      | (s, l, some true) =>
        ((p.noteDraining relay.relayId).stopRetired input.panics relay.relayId next, s, l, some relay.relayId)
  | .scaling _ _ _ [] regions => ({ p with point := .regions regions }, s, l, none)
  | .scaling region target live ((relay, generation) :: candidates) regions =>
    if live ≤ target then ({ p with point := .regions regions }, s, l, none)
    else match s.tryDrainOne l input.retireFails input.now region target relay generation with
      | (s, l, false) => ({ p with point := .scaling region target live candidates regions }, s, l, none)
      | (s, l, true) =>
        (p.stopRetired input.panics relay (.scaling region target (live - 1) candidates regions), s, l, some relay)
  | .bound unretired =>
    ({ p with
        point := .finishing (s.registry.enrolledRelays.filter fun r => r.draining && unretired.contains r.relayId) },
      s, l, none)
  | .finishing [] => ({ p with point := .sleeping }, s, l, none)
  | .finishing (relay :: relays) =>
    match s.finishDrainOne l input.retireFails input.now relay with
    | (s, l, false) => ({ p with point := .finishing relays }, s, l, none)
    | (s, l, true) => (p.stopRetired input.panics relay.relayId (.finishing relays), s, l, some relay.relayId)

end ProvisionLoop

end RallyPoint.Coordinator
