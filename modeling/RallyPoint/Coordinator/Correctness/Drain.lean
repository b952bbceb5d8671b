import RallyPoint.Coordinator.Correctness.Lifecycle

/-!
# `Coordinator.Correctness.Drain` — a relay that drains gets no new sessions

A piece of a task changes the registry by an enrollment under a fresh generation, by a mark, by the
removal of an entry, or by a mark that is taken back (`RegistryStep`). Only `try_drain_one` takes a mark
back, when it spares the relay; and it does so whether the mark was its own or not.

`Announced` is what a relay's own mark leaves behind: as long as its entry has the generation that was
marked, it is draining. Placement and re-homes pick relays that are not (`SessionChange.newHome`,
`rehomeInner_target`).
-/

namespace RallyPoint.Coordinator

open Lib Proto RelayRegistry Option

/-! ## What a piece does to the registry -/

/-- What a step of the loop does to the registry. It enrolls nobody. -/
theorem ProvisionLoop.LoopStep.registry {δ : Type} {p p' : ProvisionLoop} {s s' : SessionSetup} {l l' : RelayLedger δ}
    {drained : Option RelayId} (h : p.LoopStep s l (p', s', l', drained)) :
    RegistryStep (fun _ => False) p.Tries s.registry s'.registry := by
  have hcalls : SessionSetup.Calls (fun _ => 0) p.Makes s s' := .step h
  exact hcalls.registry (fun _ => id) fun _ _ htries => htries rfl

/-- A relay that is spared is as before, and not draining. -/
theorem RelayRegistry.registered_spare (reg : RelayRegistry) (relay : RelayId) (generation : Nat) (id : RelayId) :
    ((reg.markDraining relay generation).1.clearDraining relay generation).1.registered id = (reg.registered id).map fun r =>
      if id = relay ∧ r.generation = generation then { r with draining := false } else r := by
  unfold markDraining clearDraining
  rw [registered_setDraining, registered_setDraining, map_map]
  cases reg.registered id with
  | none => rfl
  | some r =>
    simp only [map_some, Function.comp_apply]
    split <;> rfl

namespace SessionSetup

variable (sha256 : Sha256) (s : SessionSetup)

/-- **A re-home that moves a session picks an available relay.** -/
theorem rehomeInner_target {σ : Type} (view : σ) (key : SessionKey) (dead : RelayId) (allowStay : Bool)
    (readDeparted : σ → List DepartedSlot) (assignmentCommitted : RelayId → σ → σ)
    (hfresh : s.recordedRehome key dead = none) {endpoint : RelayEndpoint}
    (htarget : (s.rehomeInner sha256 view key dead allowStay readDeparted Prod.mk assignmentCommitted).2.2 =
      .newTarget endpoint) :
    s.registry.isAvailable endpoint.relayId = true := by
  have hcases := s.rehomeInner_cases sha256 key view dead allowStay readDeparted Prod.mk assignmentCommitted
  generalize s.rehomeInner sha256 view key dead allowStay readDeparted Prod.mk assignmentCommitted = result at hcases htarget
  cases hcases with
  | unavailable | stay | closed => cases htarget
  | recorded endpoint hserving hrecorded => cases hfresh.symm.trans hrecorded
  | moved newEntry revisions members hrecorded hcandidate hmembers hdead =>
    obtain rfl := RehomeOutcome.newTarget.inj htarget
    obtain ⟨⟨r, hr, hdraining, -⟩, -⟩ := (s.mem_candidates key).mp hcandidate
    show s.registry.isAvailable newEntry.relayId = true
    simp [isAvailable, hr, hdraining]

end SessionSetup

namespace CoordinatorTask

variable {δ : Type}

/-- `try_drain_one` does not look at a relay that is draining already. -/
def triesUnmarked (s : CoordinatorState δ) : CoordinatorTask → Bool
  | reconcile _ =>
    match s.provision.point with
    | .scaling _ _ _ ((relay, generation) :: _) _ => !s.setup.registry.isDrainingAt relay generation
    | _ => true
  | _ => true

end CoordinatorTask

/-! ## A relay's own mark -/

section Announced

open CoordinatorTask SessionSetup

variable {δ : Type} [DecidableEq δ] {sha256 : Sha256} {tokenHash : String → δ} {relay : RelayId} {generation : Nat}

/-- The enrollment that was marked is draining as long as it lasts. -/
structure Announced (relay : RelayId) (generation : Nat) (reg : RelayRegistry) : Prop where
  issued : generation < reg.nextGeneration
  draining : ∀ r, reg.registered relay = some r → r.generation = generation → r.draining = true

variable {clears : RelayId → Nat → Prop} {enrolls : RelayHello → Prop} {reg reg' : RelayRegistry}

theorem Announced.registry (h : Announced relay generation reg) (hstep : RegistryStep enrolls clears reg reg')
    (hclears : clears relay generation → reg.isDrainingAt relay generation = false) : Announced relay generation reg' := by
  refine ⟨lt_of_lt_of_le h.issued hstep.nextGeneration_le, ?_⟩
  intro r hr hgeneration
  rcases hstep.entry hr with ⟨hello, -, -, -, hissued, -⟩ | ⟨r₀, draining, hr₀, rfl, hmark⟩
  · -- a later enrollment has another generation
    exact absurd hgeneration (ne_of_gt (lt_of_lt_of_le h.issued hissued))
  · have hold := h.draining r₀ hr₀ hgeneration
    rcases hmark with rfl | rfl | hclear
    · exact hold
    · rfl
    · -- the mark would have been seen
      have hseen : reg.isDrainingAt relay generation = true := by simp [isDrainingAt, hr₀, hold, ← hgeneration]
      cases hseen.symm.trans (hclears (hgeneration ▸ hclear))

theorem Announced.step {s : CoordinatorState δ} (h : Announced relay generation s.setup.registry) {task : CoordinatorTask}
    (hok : triesUnmarked s task = true) : Announced relay generation (next sha256 tokenHash task s).1.setup.registry := by
  refine h.registry (next_registry sha256 tokenHash task s) ?_
  rintro ⟨⟨input, rfl⟩, region, target, live, candidates, regions, hpoint⟩
  unfold triesUnmarked at hok
  dsimp only at hok
  rw [hpoint] at hok
  simpa using hok

/-- The relay is not available under that enrollment. -/
theorem Announced.unavailable (h : Announced relay generation reg) {r : Registered}
    (hr : reg.registered relay = some r) (hgeneration : r.generation = generation) : reg.isAvailable relay = false := by
  simp [isAvailable, hr, h.draining r hr hgeneration]

/-- Every generation of the registry was issued. -/
def Fenced (reg : RelayRegistry) : Prop := ∀ id r, reg.registered id = some r → r.generation < reg.nextGeneration

theorem Fenced.registry (h : Fenced reg) (hstep : RegistryStep enrolls clears reg reg') : Fenced reg' := by
  intro id r hr
  rcases hstep.entry hr with ⟨hello, -, -, -, hissued, hnext⟩ | ⟨r₀, draining, hr₀, rfl, -⟩
  · omega
  · exact lt_of_lt_of_le (h id r₀ hr₀) hstep.nextGeneration_le

/-- A mark that was applied. -/
theorem Announced.marked (hfenced : Fenced reg) (happlied : (reg.markDraining relay generation).2 = true) :
    Announced relay generation (reg.markDraining relay generation).1 := by
  obtain ⟨r, hr, rfl⟩ := (reg.setDraining_applied true relay generation).mp happlied
  refine ⟨?_, ?_⟩
  · rw [markDraining, nextGeneration_setDraining]
    exact hfenced relay r hr
  · intro r' hr' _
    rw [markDraining, registered_setDraining, hr, map_some, if_pos ⟨rfl, rfl⟩] at hr'
    obtain rfl := some.inj hr'
    rfl

/-- **A relay that announced its drain is given no new session** while it has the enrollment it announced
    it under, in every schedule whose scale-downs do not try a relay that is draining already: no piece
    of a task makes it serve a session it did not, and no re-home that picks a relay picks it. -/
theorem announced_drain_takes_no_sessions (sha256 : Sha256) (tokenHash : String → δ) (tenants : TenantStore)
    (firstSessionId : SessionId) (createHold sessionCeiling : Option Nat) (finalizeFeature : Bool) (pairRtts : PairRtts)
    (ledger : Option (RelayLedger δ)) (config : ProvisionConfig) (earlier later : List (Move CoordinatorTask))
    (m : Move CoordinatorTask) (relay : RelayId) (generation : Nat) :
    let start : CoordinatorWorld δ :=
      .init (.new (.new .new tenants firstSessionId createHold sessionCeiling finalizeFeature pairRtts) ledger config)
    let before := start.run (next sha256 tokenHash) earlier
    before.pointOf m = some (.applyDrainMark relay generation) →
    (next sha256 tokenHash (.applyDrainMark relay generation) before.shared).2 = .done (.applied true) →
    World.Obeys (next sha256 tokenHash) (World.Each triesUnmarked) (before.move (next sha256 tokenHash) m) later →
    let s := (start.run (next sha256 tokenHash) (earlier ++ m :: later)).shared
    ∀ r, s.setup.registry.registered relay = some r → r.generation = generation →
      (∀ task key, relay ∈ (next sha256 tokenHash task s).1.setup.servingRelays key → relay ∈ s.setup.servingRelays key) ∧
      (∀ key dead endpoint, s.setup.recordedRehome key dead = none →
        (s.setup.rehomeSession sha256 s.lifecycle key dead).2.2 = .newTarget endpoint → endpoint.relayId ≠ relay) ∧
      ∀ key dead departedSlots endpoint, s.setup.recordedRehome key dead = none →
        (s.setup.rehomeEvicting sha256 key dead departedSlots).2 = .newTarget endpoint → endpoint.relayId ≠ relay := by
  intro start before hpoint happlied hobeys s r hr hgeneration
  have hfenced : Fenced before.shared.setup.registry := by
    refine World.shared_invariant (P := fun s : CoordinatorState δ => Fenced s.setup.registry) ?_ ?_
    · intro s task h
      exact h.registry (next_registry sha256 tokenHash task s)
    · intro id r hr
      cases hr
  have hmarked : (before.shared.setup.registry.markDraining relay generation).2 = true := by simpa [next] using happlied
  have hannounced : Announced relay generation s.setup.registry := by
    have hs : s = ((before.move (next sha256 tokenHash) m).run (next sha256 tokenHash) later).shared := by
      show (start.run (next sha256 tokenHash) (earlier ++ m :: later)).shared = _
      rw [World.run_append]
      rfl
    rw [hs]
    refine World.shared_invariant_of (P := fun s : CoordinatorState δ => Announced relay generation s.setup.registry)
      (fun _ _ hok h => h.step hok) ?_ hobeys
    rw [World.shared_move_of_pointOf hpoint]
    exact .marked hfenced hmarked
  have hunavailable := hannounced.unavailable hr hgeneration
  have hother : ∀ {id}, s.setup.registry.isAvailable id = true → id ≠ relay := by
    rintro id havailable rfl
    cases havailable.symm.trans hunavailable
  refine ⟨?_, ?_, ?_⟩
  · intro task key hserves
    rcases (next_change sha256 tokenHash task s).newHome hserves with hserved | havailable
    · exact hserved
    · exact absurd rfl (hother havailable)
  · intro key dead endpoint hfresh htarget
    exact hother (s.setup.rehomeInner_target sha256 s.lifecycle key dead true (·.departedSlots key)
      (fun rNew lc => lc.onRehome key dead rNew) hfresh htarget)
  · intro key dead departedSlots endpoint hfresh htarget
    exact hother (s.setup.rehomeInner_target sha256 () key dead false (fun _ => departedSlots) (fun _ => id) hfresh htarget)

end Announced

namespace Demo

open CoordinatorTask

/-- Three relays of one region are launched. -/
def fleetLedger : RelayLedger Unit :=
  ledgerAfter (fun _ => ())
    (.replicate 3 (.mintAt (some "t") false 0 (some "eu") 9) ++
      [1, 2, 3].map fun id => .recordTask false id "arn" [] [⟨.v4 0, 0⟩])

/-- A coordinator that keeps one relay in the region. -/
def fleet : CoordinatorWorld Unit := .init (.new setup (some fleetLedger) ⟨["eu"], 0, none⟩)

def joins (relay : RelayId) : CoordinatorTask :=
  .authorize { hello relay [relay.toUInt8] [] with region := some "eu", enrollToken := some "t" } {} 0 none false

/-- The loop takes `n` steps, as the tasks from the `i`th on. -/
def ticks (i n : Nat) : List (Move CoordinatorTask) :=
  (List.range n).flatMap fun j => solo (i + j) (.reconcile ⟨1, 1, false, false, false⟩) 1

/-- The relays enroll, and the loop takes its snapshot and comes to the scale-down of the region. -/
def scalesDown : List (Move CoordinatorTask) := solo 0 (joins 1) 4 ++ solo 1 (joins 2) 4 ++ solo 2 (joins 3) 4 ++ ticks 3 8

/-- Relay 1 gets a session, and then a relay announces its drain. -/
def announcing (relay : RelayId) (generation : Nat) : List (Move CoordinatorTask) :=
  scalesDown ++ solo 11 (.create (request none) 0 .immediate) 1 ++ [.start (.applyDrainMark relay generation)]

/-- Relay 2 announces its drain, and the scale-down tries relay 1: a create that comes then is not placed
    on relay 2. -/
theorem announced_drain_takes_no_create :
    2 ∉ (next digest (fun _ => ()) (.create (request none) 0 .immediate)
      (go (announcing 2 1 ++ .advance 12 :: ticks 13 1) fleet).shared).1.setup.servingRelays ⟨"t", 2⟩ := by
  intro hserves
  have hpoint : (go (announcing 2 1) fleet).pointOf (.advance 12) = some (.applyDrainMark 2 1) := by rfl
  have happlied : (next digest (fun _ => ()) (.applyDrainMark 2 1)
    (go (announcing 2 1) fleet).shared).2 = .done (.applied true) := by rfl
  have hregistered :
      ((go (announcing 2 1 ++ .advance 12 :: ticks 13 1) fleet).shared.setup.registry.registered 2).map (·.generation) =
      some 1 := by decide
  obtain ⟨r, hr, hgeneration⟩ := map_eq_some_iff.mp hregistered
  have hserved := (announced_drain_takes_no_sessions digest (fun _ => ()) (tenants "k") 1 none none false (fun _ _ => none)
    (some fleetLedger) ⟨["eu"], 0, none⟩ (announcing 2 1) (ticks 13 1) (.advance 12) 2 1 hpoint
      happlied (by decide) r hr hgeneration).1
    _ _ hserves
  exact absurd hserved (by decide)

/-- The scale-down tries relay 1, finds its session, and takes back the mark the relay had set; a create
    is placed on the relay. -/
theorem announced_drain_cleared :
    (next digest (fun _ => ()) (.applyDrainMark 1 0) (go (announcing 1 0) fleet).shared).2 = .done (.applied true) ∧
      let s := (go (announcing 1 0 ++ [.advance 12] ++ ticks 13 1) fleet).shared
      (s.setup.registry.registered 1).map (·.generation) = some 0 ∧ s.setup.servingRelays ⟨"t", 2⟩ = [] ∧
        (next digest (fun _ => ()) (.create (request none) 0 .immediate) s).1.setup.servingRelays ⟨"t", 2⟩ = [1] := by
  refine ⟨by rfl, ?_⟩
  decide

end Demo

end RallyPoint.Coordinator
