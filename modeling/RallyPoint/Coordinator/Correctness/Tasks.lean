import RallyPoint.Coordinator.Tasks
import RallyPoint.Coordinator.Correctness.Sessions

/-!
# `Coordinator.Correctness.Tasks` — what a piece of a task does

Each piece changes the session setup by calls of `SetupOp` (`next_run`), so whatever every call keeps
holds in every world (`Sound.world`). `Makes` says which calls a piece may make: only some bring a
session into being or move it, stage a resumed descriptor, enroll a relay or take a mark back.

The drains of the reconcile loop are described by what they can do (`TryDrain`, `RetireAged`,
`FinishDrain`).
-/

namespace RallyPoint.Coordinator

open Lib Proto

/-! ## Drains -/

namespace SessionSetup

section Drains

variable {δ : Type} (s : SessionSetup) (l : RelayLedger δ) (fails : Bool) (now : U64)

/-- A tombstone is written and the relay forgotten, or nothing changes. -/
theorem tombstoneLocked_cases (relay : RelayId) :
    s.tombstoneLocked l fails now relay = (s, l, false) ∨
      s.tombstoneLocked l fails now relay = (s.forgetRelay relay, (l.retire false now relay).1, true) := by
  unfold tombstoneLocked RelayLedger.retire
  cases fails with
  | true => exact .inl rfl
  | false => exact .inr rfl

/-- What `try_drain_one` can do. -/
inductive TryDrain (region : RegionId) (target : Nat) (relay : RelayId) (generation : Nat) :
    SessionSetup × RelayLedger δ × Bool → Prop where
  | left : TryDrain region target relay generation (s, l, false)
  /-- The relay was marked, and the mark is taken back. -/
  | spared (hover : target < s.registry.availableInRegion region)
      (hmark : (s.registry.markDraining relay generation).2 = true) :
      TryDrain region target relay generation
        ({ s with registry := ((s.registry.markDraining relay generation).1.clearDraining relay generation).1 }, l, false)
  | drained (hover : target < s.registry.availableInRegion region)
      (hmark : (s.registry.markDraining relay generation).2 = true) (hidle : s.sessionCountForRelay relay = 0) :
      TryDrain region target relay generation
        ({ s with registry := (s.registry.markDraining relay generation).1 }.forgetRelay relay,
          (l.retire false now relay).1, true)

theorem tryDrainOne_cases (region : RegionId) (target : Nat) (relay : RelayId) (generation : Nat) :
    TryDrain s l now region target relay generation (s.tryDrainOne l fails now region target relay generation) := by
  unfold tryDrainOne
  by_cases hover : s.registry.availableInRegion region ≤ target
  · rw [if_pos hover]
    exact .left
  rw [if_neg hover]
  replace hover := Nat.lt_of_not_le hover
  cases hmark : s.registry.markDraining relay generation with
  | mk registry applied =>
    cases applied with
    | false => exact .left
    | true =>
      have happlied : (s.registry.markDraining relay generation).2 = true := by rw [hmark]
      have hregistry : (s.registry.markDraining relay generation).1 = registry := by rw [hmark]
      subst hregistry
      dsimp only
      split
      · exact .spared hover happlied
      · rename_i hidle
        rcases tombstoneLocked_cases { s with registry := (s.registry.markDraining relay generation).1 }
          l fails now relay with
          h | h
        · rw [h]
          exact .spared hover happlied
        · rw [h]
          exact .drained hover happlied (not_not.mp hidle)

/-- What `retire_aged` can do to a relay. -/
inductive RetireAged (replacements : List RelayId) (relay : EnrolledRelay) :
    SessionSetup × RelayLedger δ × Option Bool → Prop where
  | left : RetireAged replacements relay (s, l, none)
  | marked (hreplaced : relay.draining = true ∨ ∃ id ∈ replacements, s.registry.isAvailable id = true)
      (hmark : (s.registry.markDraining relay.relayId relay.generation).2 = true) :
      RetireAged replacements relay
        ({ s with registry := (s.registry.markDraining relay.relayId relay.generation).1 }, l, some false)
  | drained (hreplaced : relay.draining = true ∨ ∃ id ∈ replacements, s.registry.isAvailable id = true)
      (hmark : (s.registry.markDraining relay.relayId relay.generation).2 = true)
      (hidle : s.sessionCountForRelay relay.relayId = 0) :
      RetireAged replacements relay
        ({ s with registry := (s.registry.markDraining relay.relayId relay.generation).1 }.forgetRelay relay.relayId,
          (l.retire false now relay.relayId).1, some true)

theorem retireAgedOne_cases (replacements : List RelayId) (relay : EnrolledRelay) :
    RetireAged s l now replacements relay (s.retireAgedOne l fails now replacements relay) := by
  unfold retireAgedOne
  by_cases hkeep : (!relay.draining && !replacements.any s.registry.isAvailable) = true
  · rw [if_pos hkeep]
    exact .left
  rw [if_neg hkeep]
  have hreplaced : relay.draining = true ∨ ∃ id ∈ replacements, s.registry.isAvailable id = true := by
    cases hdraining : relay.draining with
    | true => exact .inl rfl
    | false =>
      right
      simpa [hdraining] using hkeep
  cases hmark : s.registry.markDraining relay.relayId relay.generation with
  | mk registry applied =>
    cases applied with
    | false => exact .left
    | true =>
      have happlied : (s.registry.markDraining relay.relayId relay.generation).2 = true := by rw [hmark]
      have hregistry : (s.registry.markDraining relay.relayId relay.generation).1 = registry := by rw [hmark]
      subst hregistry
      dsimp only
      split
      · exact .marked hreplaced happlied
      · rename_i hidle
        rcases tombstoneLocked_cases
          { s with registry := (s.registry.markDraining relay.relayId relay.generation).1 } l fails
          now relay.relayId with h | h
        · rw [h]
          exact .marked hreplaced happlied
        · rw [h]
          exact .drained hreplaced happlied (not_not.mp hidle)

/-- What `finish_drains` can do to a relay. -/
inductive FinishDrain (relay : EnrolledRelay) : SessionSetup × RelayLedger δ × Bool → Prop where
  | left : FinishDrain relay (s, l, false)
  | drained (hdraining : s.registry.isDrainingAt relay.relayId relay.generation = true)
      (hidle : s.sessionCountForRelay relay.relayId = 0) :
      FinishDrain relay (s.forgetRelay relay.relayId, (l.retire false now relay.relayId).1, true)

theorem finishDrainOne_cases (relay : EnrolledRelay) : FinishDrain s l now relay (s.finishDrainOne l fails now relay) := by
  unfold finishDrainOne
  split
  · rename_i h
    obtain ⟨hdraining, hidle⟩ := Bool.and_eq_true_iff.mp h
    rcases s.tombstoneLocked_cases l fails now relay.relayId with h | h
    · rw [h]
      exact .left
    · rw [h]
      exact .drained hdraining (by simpa using hidle)
  · exact .left

end Drains

end SessionSetup

/-! ## Steps of the loop -/

namespace ProvisionLoop

section Step

variable {δ : Type} (p : ProvisionLoop) (s : SessionSetup) (l : RelayLedger δ)

open SessionSetup in
/-- What a step of the reconcile loop can do. -/
inductive LoopStep : ProvisionLoop × SessionSetup × RelayLedger δ × Option RelayId → Prop where
  /-- The tick is over, or not begun. -/
  | sleep : LoopStep ({ p with point := .sleeping }, s, l, none)
  | snapshot (now : Nat) :
      LoopStep ({ p with enrolled := s.registry.enrolledRelays, now, point := .snapshotted }, s, l, none)
  | refresh (hpoint : p.point = .snapshotted) :
      LoopStep ({ p with idleSince := p.refreshIdle s, point := .refreshed }, s, l, none)
  | age (aged : List RelayId) (hpoint : p.point = .refreshed) :
      LoopStep ({ p with aged, point := .regions p.config.regions }, s, l, none)
  | leaveRegions (unretired : List RelayId) : LoopStep ({ p with point := .bound unretired }, s, l, none)
  | enterRegion {region : RegionId} {regions : List RegionId} (target : Nat)
      (hpoint : p.point = .regions (region :: regions)) :
      LoopStep ({ p with point := .retiring region target (p.replacements region) p.enrolled regions }, s, l, none)
  | skip {region : RegionId} {target : Nat} {replacements : List RelayId} {relay : EnrolledRelay}
      {relays : List EnrolledRelay}
      {regions : List RegionId} (hpoint : p.point = .retiring region target replacements (relay :: relays) regions) :
      LoopStep ({ p with point := .retiring region target replacements relays regions }, s, l, none)
  /-- An aged relay is marked, and still busy. -/
  | mark {region : RegionId} {target : Nat} {replacements : List RelayId} {relay : EnrolledRelay}
      {relays : List EnrolledRelay}
      {regions : List RegionId} {now : U64} {s' : SessionSetup} {l' : RelayLedger δ}
      (hpoint : p.point = .retiring region target replacements (relay :: relays) regions)
      (hregion : relay.region = some region)
      (haged : relay.relayId ∈ p.aged) (hretire : RetireAged s l now replacements relay (s', l', some false)) :
      LoopStep
        ({ p.noteDraining relay.relayId with point := .retiring region target replacements relays regions }, s', l', none)
  | retire {region : RegionId} {target : Nat} {replacements : List RelayId} {relay : EnrolledRelay}
      {relays : List EnrolledRelay}
      {regions : List RegionId} {now : U64} {s' : SessionSetup} {l' : RelayLedger δ} (panics : Bool)
      (hpoint : p.point = .retiring region target replacements (relay :: relays) regions)
      (hregion : relay.region = some region)
      (haged : relay.relayId ∈ p.aged) (hretire : RetireAged s l now replacements relay (s', l', some true)) :
      LoopStep ((p.noteDraining relay.relayId).stopRetired panics relay.relayId
        (.retiring region target replacements relays regions),
        s', l', some relay.relayId)
  | enterScaling {region : RegionId} {target : Nat} {replacements : List RelayId} {regions : List RegionId} (live : Nat)
      {candidates : List (RelayId × Nat)} (hpoint : p.point = .retiring region target replacements [] regions)
      (hcandidates : candidates = [] ∨ candidates = p.scaleDownCandidates region) :
      LoopStep ({ p with point := .scaling region target live candidates regions }, s, l, none)
  | leaveScaling {region : RegionId} {target live : Nat} {candidates : List (RelayId × Nat)} {regions : List RegionId}
      (hpoint : p.point = .scaling region target live candidates regions) :
      LoopStep ({ p with point := .regions regions }, s, l, none)
  | spare {region : RegionId} {target live : Nat} {relay : RelayId} {generation : Nat} {candidates : List (RelayId × Nat)}
      {regions : List RegionId} {now : U64} {s' : SessionSetup} {l' : RelayLedger δ}
      (hpoint : p.point = .scaling region target live ((relay, generation) :: candidates) regions)
      (hdrain : TryDrain s l now region target relay generation (s', l', false)) :
      LoopStep ({ p with point := .scaling region target live candidates regions }, s', l', none)
  | drain {region : RegionId} {target live : Nat} {relay : RelayId} {generation : Nat} {candidates : List (RelayId × Nat)}
      {regions : List RegionId} {now : U64} {s' : SessionSetup} {l' : RelayLedger δ} (panics : Bool)
      (hpoint : p.point = .scaling region target live ((relay, generation) :: candidates) regions)
      (hdrain : TryDrain s l now region target relay generation (s', l', true)) :
      LoopStep (p.stopRetired panics relay (.scaling region target (live - 1) candidates regions), s', l', some relay)
  | listDraining (relays : List EnrolledRelay) : LoopStep ({ p with point := .finishing relays }, s, l, none)
  | finish {relay : EnrolledRelay} {relays : List EnrolledRelay} {now : U64} {s' : SessionSetup}
      {l' : RelayLedger δ} (panics : Bool)
      (hpoint : p.point = .finishing (relay :: relays)) (hfinish : FinishDrain s l now relay (s', l', true)) :
      LoopStep (p.stopRetired panics relay.relayId (.finishing relays), s', l', some relay.relayId)

/-- **Everything a step of the loop can do.** -/
theorem step_cases (input : LoopInput) : LoopStep p s l (p.step input s l) := by
  unfold step
  cases hpoint : p.point with
  | sleeping =>
    dsimp only
    split
    · rw [show p = { p with point := .sleeping } by rw [← hpoint]]
      exact .sleep
    · exact .snapshot _
  | snapshotted => exact .refresh hpoint
  | refreshed => exact .age _ hpoint
  | regions regions =>
    cases regions with
    | nil =>
      dsimp only
      split
      · exact .sleep
      · exact .leaveRegions _
    | cons region regions =>
      dsimp only
      split
      · exact .sleep
      · exact .enterRegion _ hpoint
  | retiring region target replacements relays regions =>
    cases relays with
    | nil =>
      refine .enterScaling _ hpoint ?_
      split
      · exact .inl rfl
      · exact .inr rfl
    | cons relay relays =>
      dsimp only
      split
      · exact .skip hpoint
      · rename_i hskip
        rw [not_or, not_or, not_not, not_not] at hskip
        obtain ⟨hregion, haged, -⟩ := hskip
        have hcases := s.retireAgedOne_cases l input.retireFails input.now replacements relay
        rcases hresult : s.retireAgedOne l input.retireFails input.now replacements relay with ⟨s', l', _ | tombstoned⟩
        · rw [hresult] at hcases
          cases hcases
          exact .skip hpoint
        · rw [hresult] at hcases
          cases tombstoned with
          | false => exact .mark hpoint hregion haged hcases
          | true => exact .retire input.panics hpoint hregion haged hcases
  | scaling region target live candidates regions =>
    cases candidates with
    | nil => exact .leaveScaling hpoint
    | cons candidate candidates =>
      obtain ⟨relay, generation⟩ := candidate
      dsimp only
      split
      · exact .leaveScaling hpoint
      · have hcases := s.tryDrainOne_cases l input.retireFails input.now region target relay generation
        rcases hresult : s.tryDrainOne l input.retireFails input.now region target relay generation with ⟨s', l', drained⟩
        rw [hresult] at hcases
        cases drained with
        | false => exact .spare hpoint hcases
        | true => exact .drain input.panics hpoint hcases
  | bound unretired => exact .listDraining _
  | finishing relays =>
    cases relays with
    | nil => exact .sleep
    | cons relay relays =>
      dsimp only
      have hcases := s.finishDrainOne_cases l input.retireFails input.now relay
      rcases hresult : s.finishDrainOne l input.retireFails input.now relay with ⟨s', l', drained⟩
      rw [hresult] at hcases
      cases drained with
      | false =>
        cases hcases
        exact .listDraining relays
      | true => exact .finish input.panics hpoint hcases

end Step

end ProvisionLoop

/-! ## Closes -/

namespace SessionSetup

section Closes

variable (s : SessionSetup) (lc : Lifecycle) (key : SessionKey)

/-- What a call that may end a session does to it. -/
inductive CloseStep : SessionSetup × Lifecycle → Prop where
  | left : CloseStep (s, lc)
  /-- A relay's close is noted. -/
  | noted {st : SessionState} (closedRelays : RelayId → Option Nat) (hst : lc.sessions key = some st) :
      CloseStep (s, lc.put key { st with closedRelays })
  | closed : CloseStep (s.closeAndRetire lc key)

theorem onSessionClosed_cases (relay : RelayId) (generation : Nat) :
    CloseStep s lc key (s.onSessionClosed lc key relay generation) := by
  unfold onSessionClosed
  split
  · exact .left
  · split
    · exact .left
    · cases hst : lc.sessions key with
      | none => exact .left
      | some st =>
        dsimp only
        split
        · exact .left
        · unfold finishIfAllClosed
          rw [Lifecycle.sessions_put, if_pos rfl]
          dsimp only
          split
          · exact .noted _ hst
          · -- the state that is dropped is the one just noted
            rw [show ∀ st, s.closeAndRetire (lc.put key st) key = s.closeAndRetire lc key by
              intro st
              unfold closeAndRetire Lifecycle.drop Lifecycle.put
              rw [Function.update_idem]]
            exact .closed

theorem fireNeverStarted_cases : CloseStep s lc key (s.fireNeverStarted lc key) := by
  unfold fireNeverStarted
  cases lc.sessions key with
  | none => exact .left
  | some st =>
    dsimp only
    split
    · exact .left
    · exact .closed

theorem fireEmptySession_cases (confirmed : Bool) : CloseStep s lc key (s.fireEmptySession lc key confirmed) := by
  unfold fireEmptySession
  cases lc.sessions key with
  | none => exact .left
  | some st =>
    dsimp only
    split
    · exact .left
    · exact .closed

theorem retireUnevidenced_cases (relay : RelayId) : CloseStep s lc key (s.retireUnevidenced lc key relay) := by
  unfold retireUnevidenced
  split
  · exact .left
  · exact .closed

end Closes

end SessionSetup

/-! ## The calls of a piece -/

/-- `try_drain_one` is about to look at the relay. -/
def ProvisionLoop.Tries (p : ProvisionLoop) (relay : RelayId) (generation : Nat) : Prop :=
  ∃ region target live candidates regions, p.point = .scaling region target live ((relay, generation) :: candidates) regions

/-- The calls the loop may make at this point. -/
def ProvisionLoop.Makes (p : ProvisionLoop) : SetupOp → Prop
  | .setDraining draining relay generation => draining = false → p.Tries relay generation
  | .forgetRelay _ => True
  | _ => False

namespace CoordinatorTask

/-- The task may bring a session into being at this point, or move one. -/
def moves : CoordinatorTask → Bool
  | create .. | rehome .. | evictEvidence .. | rehomeEvicting .. => true
  | _ => false

/-- The task may stage a resumed descriptor at this point. -/
def resumes : CoordinatorTask → Bool
  | rehome .. | evictEvidence .. | rehomeEvicting .. | refreshResumed _ => true
  | _ => false

section Makes

variable {δ : Type}

/-- The enrollment that the piece goes through with, if the id is not retired. -/
def Enrolls (task : CoordinatorTask) (s : CoordinatorState δ) (hello : RelayHello) : Prop :=
  (∃ readFails, task = .enroll hello readFails) ∧ s.ledger.any (·.isRetired hello.relayId) = false

/-- The mark that the piece may take back. -/
def Clears (task : CoordinatorTask) (s : CoordinatorState δ) (relay : RelayId) (generation : Nat) : Prop :=
  (∃ input, task = .reconcile input) ∧ s.provision.Tries relay generation

/-- The calls a piece may make. -/
def Makes (task : CoordinatorTask) (s : CoordinatorState δ) : SetupOp → Prop
  | .create .. => task.moves = true
  | .rehome .. => task.moves = true ∧ task.resumes = true
  | .refresh .. => task.resumes = true
  | .enroll hello => task.Enrolls s hello
  | .setDraining draining relay generation => draining = false → task.Clears s relay generation
  | _ => True

variable {task : CoordinatorTask} {s : CoordinatorState δ} {op : SetupOp}

theorem Makes.moves (h : task.Makes s op) (hmoves : task.moves = false) : op.moves = false := by
  cases op with
  | create => cases hmoves.symm.trans h
  | rehome => cases hmoves.symm.trans h.1
  | _ => rfl

theorem Makes.resumes (h : task.Makes s op) (hresumes : task.resumes = false) : op.resumes = false := by
  cases op with
  | rehome => cases hresumes.symm.trans h.2
  | refresh => cases hresumes.symm.trans h
  | _ => rfl

end Makes

end CoordinatorTask

namespace SessionSetup

variable (sha256 : Sha256)

/-- The setup changes by calls that are allowed. -/
def Calls (allowed : SetupOp → Prop) (s s' : SessionSetup) : Prop :=
  ∃ ops, s' = (s.run sha256 ops).1 ∧ ∀ op ∈ ops, allowed op

namespace Calls

variable {sha256} {allowed : SetupOp → Prop} {s s' s'' : SessionSetup}

theorem refl (s : SessionSetup) : Calls sha256 allowed s s := ⟨[], rfl, by simp⟩

theorem single (op : SetupOp) (hop : allowed op) : Calls sha256 allowed s (s.apply sha256 op).1 :=
  ⟨[op], rfl, by simpa using hop⟩

theorem trans (h : Calls sha256 allowed s s') (h' : Calls sha256 allowed s' s'') : Calls sha256 allowed s s'' := by
  obtain ⟨ops, rfl, hops⟩ := h
  obtain ⟨ops', rfl, hops'⟩ := h'
  refine ⟨ops ++ ops', ?_, ?_⟩
  · unfold SessionSetup.run
    rw [Trace.run_append]
  · intro op hop
    rcases List.mem_append.mp hop with hop | hop
    · exact hops op hop
    · exact hops' op hop

theorem mono {allowed' : SetupOp → Prop} (h : Calls sha256 allowed s s') (hallowed : ∀ op, allowed op → allowed' op) :
    Calls sha256 allowed' s s' := by
  obtain ⟨ops, heq, hops⟩ := h
  exact ⟨ops, heq, fun op hop => hallowed op (hops op hop)⟩

/-- **What every call of the allowed kinds keeps.** -/
theorem keeps {P : SessionSetup → Prop} (h : Calls sha256 allowed s s') (h0 : P s)
    (hstep : ∀ s op, allowed op → P s → P (s.apply sha256 op).1) : P s' := by
  obtain ⟨ops, rfl, hops⟩ := h
  refine Trace.run_invariant (I := fun s _ => P s) ops h0 ?_
  intro s _ op hop hs
  exact hstep s op (hops op hop) hs

theorem registry {enrolls : RelayHello → Prop} {clears : RelayId → Nat → Prop} (h : Calls sha256 allowed s s')
    (henrolls : ∀ hello, allowed (.enroll hello) → enrolls hello)
    (hclears : ∀ relay generation, allowed (.setDraining false relay generation) → clears relay generation) :
    RegistryStep enrolls clears s.registry s'.registry := by
  refine h.keeps (P := fun s' => RegistryStep enrolls clears s.registry s'.registry) (.refl _) ?_
  intro s₁ op hop hstep
  refine hstep.trans ((s₁.apply_registry sha256 op).mono ?_ ?_)
  · rintro hello rfl
    exact henrolls hello hop
  · rintro relay generation rfl
    exact hclears relay generation hop

theorem sound (h : Calls sha256 allowed s s') (hsound : Sound none s) : Sound none s' :=
  h.keeps hsound fun _ op _ hs => hs.apply sha256 op

/-! ### Drains -/

section Drains

variable {p p' : ProvisionLoop} {δ : Type} {l l' : RelayLedger δ} {now : U64}

theorem markDraining (s : SessionSetup) (relay : RelayId) (generation : Nat) :
    Calls sha256 p.Makes s { s with registry := (s.registry.markDraining relay generation).1 } :=
  single (.setDraining true relay generation) fun h => by cases h

theorem forgetRelay (s : SessionSetup) (relay : RelayId) : Calls sha256 p.Makes s (s.forgetRelay relay) :=
  single (.forgetRelay relay) trivial

variable {relay : EnrolledRelay} {drained : Bool}

theorem tryDrain {region : RegionId} {target : Nat} {relay : RelayId} {generation : Nat}
    (h : TryDrain s l now region target relay generation (s', l', drained)) (htries : p.Tries relay generation) :
    Calls sha256 p.Makes s s' := by
  cases h with
  | left => exact refl s
  | spared => exact (markDraining s relay generation).trans (single (.setDraining false relay generation) fun _ => htries)
  | drained => exact (markDraining s relay generation).trans (forgetRelay _ relay)

theorem retireAged {replacements : List RelayId} {tombstoned : Option Bool}
    (h : RetireAged s l now replacements relay (s', l', tombstoned)) : Calls sha256 p.Makes s s' := by
  cases h with
  | left => exact refl s
  | marked => exact markDraining s relay.relayId relay.generation
  | drained => exact (markDraining s relay.relayId relay.generation).trans (forgetRelay _ relay.relayId)

theorem finishDrain (h : FinishDrain s l now relay (s', l', drained)) : Calls sha256 p.Makes s s' := by
  cases h with
  | left => exact refl s
  | drained => exact forgetRelay s relay.relayId

theorem step {drained : Option RelayId} (h : p.LoopStep s l (p', s', l', drained)) : Calls sha256 p.Makes s s' := by
  cases h with
  | mark _ _ _ hretire | retire _ _ _ _ hretire => exact retireAged hretire
  | spare hpoint hdrain | drain _ hpoint hdrain => exact tryDrain hdrain ⟨_, _, _, _, _, hpoint⟩
  | finish panics hpoint hfinish => exact finishDrain hfinish
  | _ => exact refl s

end Drains

/-! ### Sessions -/

theorem retireSession (s : SessionSetup) (key : SessionKey) (hretire : allowed (.retire key)) :
    Calls sha256 allowed s (s.retireSession key) :=
  single (.retire key) hretire

theorem close {lc : Lifecycle} {key : SessionKey} {result : SessionSetup × Lifecycle} (h : CloseStep s lc key result)
    (hretire : allowed (.retire key)) : Calls sha256 allowed s result.1 := by
  cases h with
  | left => exact refl s
  | noted => exact refl s
  | closed => exact retireSession s key hretire

theorem enrollRelay (s : SessionSetup) (lc : Lifecycle) {hello : RelayHello} (henroll : allowed (.enroll hello)) :
    Calls sha256 allowed s (s.enrollRelay sha256 lc hello).1 := by
  have happly : (s.enrollRelay sha256 lc hello).1 = (s.apply sha256 (.enroll hello)).1 := by
    unfold SessionSetup.enrollRelay
    show _ = (s.enrollLocked sha256 hello).1
    rcases s.enrollLocked sha256 hello with ⟨s', conflict | enrolled⟩ <;> rfl
  rw [happly]
  exact single (.enroll hello) henroll

theorem disconnectRelay (s : SessionSetup) (lc : Lifecycle) {relay : RelayId} {generation : Nat}
    (hdisconnect : allowed (.disconnect relay generation)) :
    Calls sha256 allowed s (s.disconnectRelay lc relay generation).1 := by
  have hcall : Calls sha256 allowed s { s with registry := (s.registry.removeIfCurrent relay generation).1 } :=
    single (.disconnect relay generation) hdisconnect
  unfold SessionSetup.disconnectRelay
  rcases hremove : s.registry.removeIfCurrent relay generation with ⟨registry, _ | _⟩
  · exact refl s
  · rw [hremove] at hcall
    exact hcall

theorem rehomeInner {σ : Type} (s : SessionSetup) (view : σ) (key : SessionKey) (dead : RelayId) (allowStay : Bool)
    (readDeparted : σ → List DepartedSlot) (assignmentCommitted : RelayId → σ → σ)
    (hrehome : ∀ departedSlots, allowed (.rehome key dead allowStay departedSlots none)) :
    Calls sha256 allowed s (s.rehomeInner sha256 view key dead allowStay readDeparted Prod.mk assignmentCommitted).1 := by
  obtain ⟨departedSlots, h⟩ := s.exists_rehomeInner_apply sha256 view key dead allowStay readDeparted assignmentCommitted
  rw [← congrArg Prod.fst h]
  exact single _ (hrehome departedSlots)

end Calls

end SessionSetup

/-! ## What the longer pieces do -/

namespace CoordinatorState

variable {δ : Type} (sha256 : Sha256) (s : CoordinatorState δ)

/-- An authorization touches nothing but the ledger. -/
theorem authorize_eq [DecidableEq δ] (tokenHash : String → δ) (hello : RelayHello) (faults : Faults) (now : U64)
    (peerIp : Option IpAddr) (readFails : Bool) :
    (s.authorize sha256 tokenHash hello faults now peerIp readFails).1 =
      { s with
        ledger := s.ledger.map fun l => LedgerOp.apply tokenHash l
          (.authorizeEnrollAt faults now hello.relayId (sha256 hello.certDer) hello.enrollToken peerIp) } := by
  unfold authorize
  cases hledger : s.ledger with
  | none =>
    dsimp only [Option.map_none]
    rw [← hledger]
  | some l =>
    show _ = { s with
      ledger :=
        some (l.authorizeEnrollAt tokenHash faults now hello.relayId (sha256 hello.certDer) hello.enrollToken peerIp).1 }
    dsimp only
    rcases l.authorizeEnrollAt tokenHash faults now hello.relayId (sha256 hello.certDer) hello.enrollToken peerIp with
      ⟨l', refusal | authorized⟩ <;> rfl

/-- An enrollment is refused, or goes through and lists the sessions to be moved. -/
theorem enroll_cases (hello : RelayHello) (readFails : Bool) :
    (∃ close, s.enroll sha256 hello readFails = (s, .done (.refused close))) ∨
      ∃ enrolled, (s.setup.enrollRelay sha256 s.lifecycle hello).2.2 = .ok enrolled ∧
        s.ledger.any (·.isRetired hello.relayId) = false ∧
        s.enroll sha256 hello readFails =
          ({ s with
              setup := (s.setup.enrollRelay sha256 s.lifecycle hello).1
              lifecycle := (s.setup.enrollRelay sha256 s.lifecycle hello).2.1 },
            .going (.evictEvidence hello.relayId enrolled.generation enrolled.evidenceEvict enrolled.evict)) := by
  unfold enroll
  split
  · exact .inl ⟨_, rfl⟩
  · rename_i hretired
    have hlive : s.ledger.any (·.isRetired hello.relayId) = false := by
      cases hledger : s.ledger with
      | none => rfl
      | some l =>
        rw [hledger] at hretired
        have h : ¬ (readFails || l.isRetired hello.relayId) = true := hretired
        rw [Bool.or_eq_true, not_or] at h
        simpa using h.2
    unfold SessionSetup.enrollRelay
    rcases s.setup.enrollLocked_cases sha256 hello with ⟨conflict, h⟩ | ⟨enrolled, draining, hok, -, -⟩
    · left
      rw [h]
      exact ⟨_, rfl⟩
    · right
      rcases hresult : s.setup.enrollLocked sha256 hello with ⟨setup, conflict | enrolled'⟩
      · rw [hresult] at hok
        cases hok
      · exact ⟨enrolled', rfl, hlive, rfl⟩

/-- The loop takes a step, if there is a ledger. -/
theorem reconcile_cases (input : LoopInput) {l : RelayLedger δ} (hl : s.ledger = some l) :
    ∃ provision setup l' drained, s.provision.LoopStep s.setup l (provision, setup, l', drained) ∧
      s.reconcile input = ({ s with setup, ledger := some l', provision }, drained) := by
  have hstep := s.provision.step_cases s.setup l input
  unfold reconcile
  rw [hl]
  exact ⟨_, _, _, _, hstep, rfl⟩

/-- What every step of the loop keeps, the loop keeps. -/
theorem reconcile_keeps {P : ProvisionLoop → RelayRegistry → Prop} (input : LoopInput) (h : P s.provision s.setup.registry)
    (hkeeps : ∀ {l l' : RelayLedger δ} {provision setup drained},
      s.provision.LoopStep s.setup l (provision, setup, l', drained) →
      P provision setup.registry) : P (s.reconcile input).1.provision (s.reconcile input).1.setup.registry := by
  cases hledger : s.ledger with
  | none =>
    unfold reconcile
    rw [hledger]
    exact h
  | some l =>
    obtain ⟨provision, setup, l', drained, hstep, hresult⟩ := s.reconcile_cases input hledger
    rw [hresult]
    exact hkeeps hstep

end CoordinatorState

namespace CoordinatorTask

variable {δ : Type} [DecidableEq δ] (sha256 : Sha256) (tokenHash : String → δ)

open SessionSetup

omit [DecidableEq δ] in
theorem rehomed {allowed : SetupOp → Prop} (s : CoordinatorState δ) (key : SessionKey) (dead : RelayId)
    (hrehome : ∀ departedSlots, allowed (.rehome key dead true departedSlots none)) :
    Calls sha256 allowed s.setup (s.setup.rehomeSession sha256 s.lifecycle key dead).1 :=
  .rehomeInner s.setup s.lifecycle key dead true (·.departedSlots key) (fun rNew lc => lc.onRehome key dead rNew) hrehome

/-- **Each piece changes the setup by calls.** -/
theorem next_run (task : CoordinatorTask) (s : CoordinatorState δ) :
    Calls sha256 (task.Makes s) s.setup (next sha256 tokenHash task s).1.setup := by
  cases task with
  | create request expiresAt policy =>
    have h := s.setup.createBody_apply sha256 s.lifecycle request expiresAt policy
      fun session relays lc => lc.registerSession ⟨request.tenant, session⟩ relays
    show Calls sha256 _ _ (s.setup.createSession sha256 s.lifecycle request expiresAt policy).1
    unfold createSession
    rw [← congrArg Prod.fst h]
    exact .single _ rfl
  | rehome key dead => exact rehomed sha256 s key dead fun _ => ⟨rfl, rfl⟩
  | authorize hello faults now peerIp readFails =>
    show Calls sha256 _ _ (s.authorize sha256 tokenHash hello faults now peerIp readFails).1.setup
    rw [s.authorize_eq]
    exact .refl _
  | enroll hello readFails =>
    show Calls sha256 _ _ (s.enroll sha256 hello readFails).1.setup
    rcases s.enroll_cases sha256 hello readFails with ⟨close, h⟩ | ⟨enrolled, -, hlive, h⟩ <;> rw [h]
    · exact .refl _
    · exact .enrollRelay _ _ ⟨⟨readFails, rfl⟩, hlive⟩
  | evictEvidence relay generation keys mismatched =>
    cases keys with
    | nil => exact .refl _
    | cons key keys => exact rehomed sha256 s key relay fun _ => ⟨rfl, rfl⟩
  | retireUnevidenced relay generation key keys mismatched =>
    exact .close (s.setup.retireUnevidenced_cases s.lifecycle key relay) trivial
  | evict relay generation keys => cases keys <;> exact .refl _
  | rehomeEvicting relay generation key departedSlots keys =>
    exact .rehomeInner s.setup () key relay false (fun _ => departedSlots) (fun _ => id) fun _ => ⟨rfl, rfl⟩
  | refreshResumed key => exact .single (.refresh key (s.lifecycle.departedSlots key)) rfl
  | onSessionClosed key relay generation =>
    exact .close (s.setup.onSessionClosed_cases s.lifecycle key relay generation) trivial
  | fireNeverStarted key => exact .close (s.setup.fireNeverStarted_cases s.lifecycle key) trivial
  | fireEmptySession key confirmed => exact .close (s.setup.fireEmptySession_cases s.lifecycle key confirmed) trivial
  | retireReaped key => exact .retireSession _ _ trivial
  | disconnect relay generation => exact .disconnectRelay _ _ trivial
  | applyDrainMark relay generation => exact .single (.setDraining true relay generation) fun h => by cases h
  | settleLobby key expected stillCurrent => exact .single (.settleLobby key expected stillCurrent) trivial
  | measure pairRtts => exact .single (.measure pairRtts) trivial
  | retireRelay relay fails now =>
    show Calls sha256 _ _ (s.retireRelay relay fails now).setup
    unfold CoordinatorState.retireRelay
    cases s.ledger with
    | none => exact .refl _
    | some l =>
      dsimp only
      rcases s.setup.tombstoneLocked_cases l fails now relay with h | h <;> rw [h]
      · exact .refl _
      · exact .single (.forgetRelay relay) trivial
  | reconcile input =>
    show Calls sha256 _ _ (s.reconcile input).1.setup
    unfold CoordinatorState.reconcile
    cases s.ledger with
    | none => exact .refl _
    | some l =>
      refine (Calls.step (s.provision.step_cases s.setup l input)).mono ?_
      intro op hop
      cases op with
      | setDraining draining relay generation => exact fun hfalse => ⟨⟨input, rfl⟩, hop hfalse⟩
      | forgetRelay => trivial
      | _ => cases hop
  | _ => exact .refl _

/-- **What a piece does to the registry.** -/
theorem next_registry (task : CoordinatorTask) (s : CoordinatorState δ) :
    RegistryStep (task.Enrolls s) (task.Clears s) s.setup.registry (next sha256 tokenHash task s).1.setup.registry :=
  (next_run sha256 tokenHash task s).registry (fun _ h => h) fun _ _ h => h rfl

end CoordinatorTask

/-- **The maps over sessions agree in every world.** -/
theorem SessionSetup.Sound.world {δ : Type} [DecidableEq δ] {sha256 : Sha256} {tokenHash : String → δ}
    {w : CoordinatorWorld δ} (h : Sound none w.shared.setup) (moves : List (Move CoordinatorTask)) :
    Sound none (w.run (CoordinatorTask.next sha256 tokenHash) moves).shared.setup :=
  World.shared_invariant (P := fun s : CoordinatorState δ => Sound none s.setup)
    (fun s task hs => (CoordinatorTask.next_run sha256 tokenHash task s).sound hs) h

/-! ## A coordinator to run -/

namespace Demo

/-- A coordinator without a ledger. -/
def idle : CoordinatorWorld Unit := .init (.new setup none ⟨[], 0, none⟩)

def go (moves : List (Move CoordinatorTask)) (w : CoordinatorWorld Unit) : CoordinatorWorld Unit :=
  w.run (CoordinatorTask.next digest fun _ => ()) moves

/-- The `i`th task starts, and takes `n` pieces. -/
def solo (i : Nat) (task : CoordinatorTask) (n : Nat) : List (Move CoordinatorTask) :=
  .start task :: .replicate n (.advance i)

/-- A relay of one boot dials in. -/
def dials (relay : RelayId) (certDer : List UInt8) (capabilities : List Capability) : CoordinatorTask :=
  .authorize { hello relay certDer capabilities with bootId := some 7 } {} 0 none false

def key : SessionKey := ⟨"t", 1⟩

/-- Relay 1 serves the session, and relay 2 could. -/
def twoRelays : List (Move CoordinatorTask) :=
  solo 0 (dials 1 [1] [.finalizedDropV1]) 4 ++ solo 1 (.create (request none) 0 .immediate) 1 ++
    solo 2 (dials 2 [2] [.finalizedDropV1]) 4

end Demo

end RallyPoint.Coordinator
