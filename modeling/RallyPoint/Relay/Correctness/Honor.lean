import RallyPoint.Relay.Session.Tasks
import RallyPoint.Relay.Correctness.Leaves

/-!
# `Relay.Correctness.Honor` — what an honored drop request leaves behind

A drop is open while its slot has an undecided departure and a hold (`Open`). Honoring a request takes
the hold and then decides the leave; the decision declines when nothing gives the leave an apply frame.
On the path with finalization the basis is checked before the hold is taken, and the drop ends decided or
stays open (`Complete.returns`). On the path without, nothing is checked: `honored_drop_stays_resolvable`
says exactly when the hold is gone and nothing was decided.
-/

namespace RallyPoint.Relay

open Lib Option Honor SessionState OrdMap

namespace DecisionMaker

variable {m : DecisionMaker} {slot : SlotId}

/-! ## The basis of a leave -/

/-- A frame the leave of the slot can be scheduled after. -/
def framed (m : DecisionMaker) (slot : SlotId) : Bool :=
  m.sessionFrame.isSome || ((m.departures.get? slot).bind (·.lastFrame)).isSome

/-- The leave of a drop can be scheduled: after a frame, or at its proven count once a game runs. -/
def dropSchedulable (m : DecisionMaker) (slot : SlotId) : Bool :=
  m.framed slot || (m.provenDrop slot leaveReasonDropped && m.gameUnderway)

theorem sessionFrame_isSome : m.sessionFrame.isSome = true ↔ ∃ s state, m.slots.get? s = some state ∧
    state.frame.isSome = true := by
  unfold sessionFrame
  rw [isSome_iff_ne_none, ne_eq, List.min?_eq_none_iff, List.filterMap_eq_nil_iff]
  push Not
  constructor
  · rintro ⟨state, hmem, hframe⟩
    obtain ⟨s, hs⟩ := mem_values.mp hmem
    exact ⟨s, state, hs, isSome_iff_ne_none.mpr hframe⟩
  · rintro ⟨s, state, hs, hframe⟩
    exact ⟨state, mem_values.mpr ⟨s, hs⟩, isSome_iff_ne_none.mp hframe⟩

theorem newerFrame_isSome (a b : Option Nat) : (newerFrame a b).isSome = (a.isSome || b.isSome) := by
  cases a <;> cases b <;> rfl

/-- The frame a departing slot had moves into its record, so that no basis is lost. -/
theorem framed_noteDeparture (stamps : DepartureStamps) (reason : Nat) (epoch : Option Nat)
    (hstamps : stamps.lastFrame = none) :
    (m.noteDeparture slot stamps reason epoch).framed slot = m.framed slot := by
  have hlast : (((m.noteDeparture slot stamps reason epoch).departures.get? slot).bind (·.lastFrame)).isSome =
      (((m.departures.get? slot).bind (·.lastFrame)).isSome || ((m.slots.get? slot).bind (·.frame)).isSome) := by
    simp only [noteDeparture, get?_insert_self, bind_some, mergedDeparture, hstamps]
    cases m.departures.get? slot <;> simp [newerFrame_isSome]
  have hsession : (m.noteDeparture slot stamps reason epoch).sessionFrame.isSome = true ↔
      ∃ s state, s ≠ slot ∧ m.slots.get? s = some state ∧ state.frame.isSome = true := by
    rw [sessionFrame_isSome]
    simp only [noteDeparture, get?_erase]
    constructor
    · rintro ⟨s, state, hs, hframe⟩
      split at hs
      · cases hs
      · exact ⟨s, state, ‹_›, hs, hframe⟩
    · rintro ⟨s, state, hne, hs, hframe⟩
      exact ⟨s, state, by rw [if_neg hne]; exact hs, hframe⟩
  unfold framed
  rw [hlast, Bool.eq_iff_iff, Bool.or_eq_true, Bool.or_eq_true, Bool.or_eq_true, hsession, sessionFrame_isSome]
  constructor
  · rintro (⟨s, state, _, hs, hframe⟩ | hrecord | hslot)
    · exact .inl ⟨s, state, hs, hframe⟩
    · exact .inr hrecord
    · obtain ⟨state, hs, hframe⟩ : ∃ state, m.slots.get? slot = some state ∧ state.frame.isSome = true := by
        cases hs : m.slots.get? slot with
        | none => simp [hs] at hslot
        | some state => exact ⟨state, rfl, by simpa [hs] using hslot⟩
      exact .inl ⟨slot, state, hs, hframe⟩
  · rintro (⟨s, state, hs, hframe⟩ | hrecord)
    · by_cases hne : s = slot
      · subst hne
        exact .inr (.inr (by simpa [hs] using hframe))
      · exact .inl ⟨s, state, hne, hs, hframe⟩
    · exact .inr (.inl hrecord)

theorem applyFrame_isSome (count : Option Nat) :
    (m.applyFrame slot count).isSome = (m.framed slot || (count.isSome && m.gameUnderway)) := by
  simp only [applyFrame, framed, leaveBaseFrame]
  generalize (m.departures.get? slot).bind (·.lastFrame) = last
  generalize m.sessionFrame = session
  cases last <;> cases session <;> cases count <;> cases m.gameUnderway <;> simp

theorem leaveDecided_authorLeave (directive : LeaveDirective) (s : SlotId) :
    (m.authorLeave slot directive).1.leaveDecided s = (decide (s = slot) || m.leaveDecided s) :=
  leaveDecided_cacheLeave _ slot s _

/-- **A drop is decided exactly when its leave can be scheduled.** -/
theorem commitLeave_decides (hu : m.leaveDecided slot = false) :
    (m.commitLeave slot leaveReasonDropped).1.leaveDecided slot = m.dropSchedulable slot := by
  have hcount : (m.leaveCount slot leaveReasonDropped).isSome = m.provenDrop slot leaveReasonDropped := by
    unfold leaveCount provenDrop
    cases m.departures.get? slot with
    | none => simp
    | some record => cases hf : record.finalized <;> cases hc : record.finalTurnCount <;> simp [hf, hc]
  have happly : (m.applyFrame slot (m.leaveCount slot leaveReasonDropped)).isSome = m.dropSchedulable slot := by
    rw [applyFrame_isSome, hcount]
    rfl
  unfold commitLeave
  rw [if_neg (by simp [hu])]
  rw [← happly]
  cases m.applyFrame slot (m.leaveCount slot leaveReasonDropped) with
  | none => simpa using hu
  | some frame => simp [leaveDecided_authorLeave]

/-- A departure with no news keeps the proof of a drop. -/
theorem provenDrop_noteDeparture (stamps : DepartureStamps) (reason : Nat) (epoch : Option Nat) {record : Departure}
    (hrecord : m.departures.get? slot = some record) :
    (m.noteDeparture slot stamps reason epoch).provenDrop slot leaveReasonDropped =
      ((record.finalized || stamps.finalized) && (record.finalTurnCount.isSome || stamps.finalTurnCount.isSome)) := by
  simp only [provenDrop, noteDeparture, get?_insert_self, mergedDeparture, hrecord]
  cases record.finalTurnCount <;> simp

/-- **The authority decides an undecided drop exactly when its leave can be scheduled.** -/
theorem decideLeave_decides (ha : m.authority = .selfRelay) (hu : m.leaveDecided slot = false)
    (hd : m.departed slot = true) :
    (m.decideLeave slot leaveReasonDropped).1.leaveDecided slot = m.dropSchedulable slot := by
  obtain ⟨record, hrecord⟩ := isSome_iff_exists.mp hd
  have hnoted : (m.noteDeparture slot {} leaveReasonDropped none).dropSchedulable slot = m.dropSchedulable slot := by
    unfold dropSchedulable
    rw [framed_noteDeparture {} leaveReasonDropped none rfl, provenDrop_noteDeparture {} leaveReasonDropped none hrecord]
    simp [provenDrop, hrecord, gameUnderway, noteDeparture]
  unfold decideLeave
  dsimp only
  rw [if_neg (by simpa [noteDeparture] using ha), commitLeave_decides (by simpa using hu), hnoted]

/-- A leave with a basis for its count can be scheduled once the count is proven. -/
theorem dropSchedulable_counted (h : m.countedLeaveSchedulable slot = true)
    (hproven : m.provenDrop slot leaveReasonDropped = true) : m.dropSchedulable slot = true := by
  unfold countedLeaveSchedulable at h
  unfold dropSchedulable framed
  rw [hproven]
  revert h
  cases m.gameUnderway <;> simp

end DecisionMaker

/-! ## Open drops -/

/-- **The slot's drop is open** on the relay that decides: its dropped departure is undecided, it has a
    hold, and no task is at the holds. -/
structure Open (s : SessionState) (slot : SlotId) : Prop where
  free : s.holdsLocked = false
  authority : s.maker.authority = .selfRelay
  dropped : (s.maker.departures.get? slot).map (·.reason) = some leaveReasonDropped
  undecided : s.maker.leaveDecided slot = false
  held : s.isPending slot = true

/-- A later request or a reconnect can still resolve the drop, or it is decided. -/
def Resolvable (s : SessionState) (slot : SlotId) : Prop := s.maker.leaveDecided slot = true ∨ s.isPending slot = true

variable {s : SessionState} {slot : SlotId}

section Open

variable (h : Open s slot)
include h

theorem Open.resolvable : Resolvable s slot := .inr h.held

theorem Open.record : ∃ record, s.maker.departures.get? slot = some record ∧ record.reason = leaveReasonDropped := by
  obtain ⟨record, hget, hreason⟩ := map_eq_some_iff.mp h.dropped
  exact ⟨record, hget, hreason⟩

/-- More about the departure leaves the drop open. -/
theorem Open.noteDeparture (stamps : DepartureStamps) (reason : Nat) (epoch : Option Nat) :
    Open (s.withMaker (s.maker.noteDeparture slot stamps reason epoch)) slot := by
  obtain ⟨record, hget, hreason⟩ := h.record
  refine ⟨h.free, h.authority, ?_, h.undecided, h.held⟩
  simp [withMaker, DecisionMaker.noteDeparture, DecisionMaker.mergedDeparture, hget, hreason]

/-- So does sealing it, or lifting the seal. -/
theorem Open.sealing (drops : Finset SlotId) :
    Open (s.withMaker { s.maker with finalizingDrops := drops }) slot :=
  ⟨h.free, h.authority, h.dropped, h.undecided, h.held⟩

/-- `finalize_home_drop` returns, and the drop is still open. -/
theorem FinalizeHome.returns (epoch : Option Nat) :
    ∃ s' outcome, Returns FinalizeHome.next (.going (.sealDrop slot epoch)) s s' outcome ∧ Open s' slot := by
  have hfinish : ∀ s reading, Open s slot → ∃ s' outcome,
      Returns FinalizeHome.next (.going (.finish slot reading)) s s' outcome ∧ Open s' slot := by
    intro s reading h
    refine ⟨_, _, .step rfl .done, ?_⟩
    cases s.maker.provenCount slot reading with
    | some count => exact h.noteDeparture _ _ _
    | none => exact h.sealing _
  have hsealed : ∀ m refused, s.maker.sealForFinalize slot epoch = (m, refused) → Open (s.withMaker m) slot := by
    intro m refused hseal
    unfold DecisionMaker.sealForFinalize at hseal
    repeat' split at hseal
    all_goals
      obtain ⟨rfl, rfl⟩ := Prod.mk.inj hseal
      first | exact h | exact h.sealing _
  rcases hseal : s.maker.sealForFinalize slot epoch with ⟨m, _ | outcome⟩
  · obtain ⟨s', outcome, hreturns, hopen⟩ :=
      hfinish (s.withMaker m) (forwardGateReading s.seen () slot) (hsealed m none hseal)
    have hnext : FinalizeHome.next (.sealDrop slot epoch) s = (s.withMaker m, .going (.readGate slot)) := by
      simp [FinalizeHome.next, hseal]
    exact ⟨s', outcome, .step hnext (.step rfl hreturns), hopen⟩
  · have hnext : FinalizeHome.next (.sealDrop slot epoch) s = (s.withMaker m, .done outcome) := by
      simp [FinalizeHome.next, hseal]
    exact ⟨s.withMaker m, outcome, .step hnext .done, hsealed m _ hseal⟩

/-- Taking the hold of an open drop and deciding it. -/
theorem Open.claimed :
    ((s.release slot).1.withMaker ((s.release slot).1.maker.decideLeave slot leaveReasonDropped).1).maker.leaveDecided slot =
      s.maker.dropSchedulable slot := by
  obtain ⟨record, hget, _⟩ := h.record
  exact DecisionMaker.decideLeave_decides h.authority h.undecided (isSome_of_eq_some hget)

/-- **A proven count is enough**: `complete_finalized_drop` returns with the drop decided, or open. -/
theorem Complete.returns (count : Nat) :
    ∃ s', Returns Complete.next (.going (.checkStale slot count)) s s' () ∧ Resolvable s' slot := by
  obtain ⟨record, hget, _⟩ := h.record
  by_cases hstale : (highestForwardedSeq s.seen () slot).any (count ≤ ·) = true
  · have hnext : Complete.next (.checkStale slot count) s = (s, .done ()) := by simp only [Complete.next, hstale, if_true]
    exact ⟨s, .step hnext .done, h.resolvable⟩
  have hfresh : Complete.next (.checkStale slot count) s = (s, .going (.checkBasis slot count)) := by
    simp only [Complete.next, hstale]; rfl
  by_cases hbasis : s.maker.countedLeaveSchedulable slot = true
  · let stamped := s.withMaker
      (s.maker.recordDeparture slot { finalTurnCount := some count, finalized := true } leaveReasonDropped)
    have hstamped : Open stamped slot := h.noteDeparture _ _ _
    have hproven : stamped.maker.provenDrop slot leaveReasonDropped = true := by
      show (s.maker.noteDeparture slot _ leaveReasonDropped none).provenDrop slot leaveReasonDropped = true
      rw [DecisionMaker.provenDrop_noteDeparture _ leaveReasonDropped none hget]
      simp
    have hcounted : stamped.maker.countedLeaveSchedulable slot = true := by
      have hframed : stamped.maker.framed slot = s.maker.framed slot := DecisionMaker.framed_noteDeparture _ _ _ rfl
      have hunderway : stamped.maker.gameUnderway = s.maker.gameUnderway := rfl
      unfold DecisionMaker.countedLeaveSchedulable at hbasis ⊢
      unfold DecisionMaker.framed at hframed
      rw [hunderway, Bool.or_assoc]
      rw [Bool.or_assoc] at hbasis
      exact hframed ▸ hbasis
    have hclaim : Complete.next (.claim slot) stamped = ((stamped.release slot).1, .going (.decide slot)) := by
      simp only [Complete.next, hstamped.free, release, hstamped.held]; rfl
    have hchecked : Complete.next (.checkBasis slot count) s = (s, .going (.stamp slot count)) := by
      simp only [Complete.next, hbasis]; rfl
    have hstamp : Complete.next (.stamp slot count) s = (stamped, .going (.claim slot)) := rfl
    refine ⟨_, .step hfresh (.step hchecked (.step hstamp (.step hclaim (.step rfl .done)))), .inl ?_⟩
    rw [hstamped.claimed]
    exact DecisionMaker.dropSchedulable_counted hcounted hproven
  · have hnext : Complete.next (.checkBasis slot count) s = (s, .done ()) := by simp only [Complete.next, hbasis]; rfl
    exact ⟨s, .step hfresh (.step hnext .done), h.resolvable⟩

end Open

/-! ## Honoring a request -/

/-- The path with finalization. -/
theorem Honor.returns_finalizing (h : Open s slot) (henabled : s.maker.finalizedDropsEnabled = true) :
    ∃ s', Returns Honor.next (.going (.finalizedDropsEnabled slot)) s s' () ∧ Resolvable s' slot := by
  have hfirst : next (.finalizedDropsEnabled slot) s = (s, .going (.strictlyHomes slot)) := by
    simp only [next, henabled]; rfl
  by_cases hhomes : s.maker.strictlyHomes slot = true
  · have hnext : next (.strictlyHomes slot) s = (s, .going (.departureEpoch slot)) := by
      simp only [next, hhomes]; rfl
    obtain ⟨s₁, outcome, hfinalized, hopen⟩ := FinalizeHome.returns h (s.maker.departureEpoch slot)
    -- what the request goes on to with the outcome of the finalization
    cases outcome with
    | finalized count =>
      obtain ⟨s', hcompleted, hresolvable⟩ := Complete.returns hopen count
      have hafter : Returns next (.going (.complete (.checkStale slot count))) s₁ s' () :=
        Returns.call complete (fun _ => .done ()) (fun _ _ => rfl) hcompleted .done
      refine ⟨s', .step hfirst (.step hnext (.step rfl ?_)), hresolvable⟩
      exact Returns.call (finalize slot) _ (fun _ _ => rfl) hfinalized hafter
    | rejectedLive | rejectedNoCursor =>
      refine ⟨s₁, .step hfirst (.step hnext (.step rfl ?_)), hopen.resolvable⟩
      exact Returns.call (finalize slot) _ (fun _ _ => rfl) hfinalized .done
  · have hnext : next (.strictlyHomes slot) s = (s, .going (.askHome slot)) := by simp only [next, hhomes]; rfl
    exact ⟨s, .step hfirst (.step hnext (.step rfl .done)), h.resolvable⟩

/-- **The path without finalization takes the hold, and decides only what can be scheduled.** -/
theorem Honor.returns_claiming (h : Open s slot) (hdisabled : s.maker.finalizedDropsEnabled = false) :
    ∃ s', Returns Honor.next (.going (.finalizedDropsEnabled slot)) s s' () ∧
      s'.maker.leaveDecided slot = s.maker.dropSchedulable slot ∧ s'.isPending slot = false := by
  have hfirst : next (.finalizedDropsEnabled slot) s = (s, .going (.claim slot)) := by
    simp only [next, hdisabled]; rfl
  have hclaim : next (.claim slot) s = ((s.release slot).1, .going (.decide slot)) := by
    simp only [next, h.free, release, h.held]; rfl
  refine ⟨_, .step hfirst (.step hclaim (.step rfl .done)), h.claimed, ?_⟩
  simp [isPending, release, withMaker, get?_erase]

/-- **An honored request resolves the drop or leaves it open, except for one that stands past the floor,
    in a session without finalization, with nothing to schedule its leave on**: its hold is gone and its
    leave is not decided. -/
theorem honored_drop_stays_resolvable (s : SessionState) (target : SlotId) (now : Nat) (h : Open s target) :
    (∃ s', Returns Honor.next (.going (.isAuthority target now)) s s' ()) ∧
    ∀ s', Returns Honor.next (.going (.isAuthority target now)) s s' () →
      ((s'.maker.leaveDecided target = true ∨ s'.isPending target = true) ↔
        ¬ (s.heldPastUnlock target now = true ∧ s.maker.finalizedDropsEnabled = false ∧
          s.maker.dropSchedulable target = false)) := by
  suffices hone : ∃ s', Returns next (.going (.isAuthority target now)) s s' () ∧ (Resolvable s' target ↔
      ¬ (s.heldPastUnlock target now = true ∧ s.maker.finalizedDropsEnabled = false ∧
        s.maker.dropSchedulable target = false)) by
    obtain ⟨s', hreturns, hiff⟩ := hone
    refine ⟨⟨s', hreturns⟩, fun s₂ h₂ => ?_⟩
    obtain ⟨rfl, _⟩ := hreturns.unique h₂
    exact hiff
  have hauthority : next (.isAuthority target now) s = (s, .going (.heldFor target now)) := by
    simp only [next, h.authority]; rfl
  by_cases hpast : s.heldPastUnlock target now = true
  · have hheld : next (.heldFor target now) s = (s, .going (.finalizedDropsEnabled target)) := by
      simp only [next, h.free, hpast]; rfl
    cases henabled : s.maker.finalizedDropsEnabled with
    | true =>
      obtain ⟨s', hreturns, hresolvable⟩ := returns_finalizing h henabled
      exact ⟨s', .step hauthority (.step hheld hreturns), by simp [hresolvable]⟩
    | false =>
      obtain ⟨s', hreturns, hdecided, hpending⟩ := returns_claiming h henabled
      refine ⟨s', .step hauthority (.step hheld hreturns), ?_⟩
      simp [Resolvable, hdecided, hpending, hpast]
  · have hheld : next (.heldFor target now) s = (s, .done ()) := by simp only [next, h.free, hpast]; rfl
    exact ⟨s, .step hauthority (.step hheld .done), by simp [h.resolvable, hpast]⟩

/-- A session without finalization that decides for itself, where slot 3 dropped at time 0. -/
def droppedEarly (maker : DecisionMaker) : SessionState :=
  (SessionState.fresh (maker.recordDepartureForEpoch 3 {} leaveReasonDropped (some 7)).1 10).hold 3 0

theorem droppedEarly_open : Open (droppedEarly (.create ⟨1, 8⟩ .selfRelay ∅ false false)) 3 :=
  ⟨rfl, rfl, by decide +kernel, by decide +kernel, by decide +kernel⟩

/-- A game is running and its slots have frames: the drop is decided. -/
theorem honored_drop_stays_resolvable_framed :
    let s := droppedEarly ((DecisionMaker.create ⟨1, 8⟩ .selfRelay ∅ false false).observeFrame 4 20)
    ∃ s', Returns next (.going (.isAuthority 3 30)) s s' () ∧ (s'.maker.leaveDecided 3 = true ∨ s'.isPending 3 = true) := by
  intro s
  have hopen : Open s 3 := ⟨rfl, rfl, by decide +kernel, by decide +kernel, by decide +kernel⟩
  obtain ⟨⟨s', hreturns⟩, hall⟩ := honored_drop_stays_resolvable s 3 30 hopen
  exact ⟨s', hreturns, (hall s' hreturns).mpr (by decide +kernel)⟩

/-- Before any framed turn, a request past the floor strands the drop: neither a later request nor the
    slot can resolve it. -/
theorem honored_drop_is_stranded :
    let s := droppedEarly (.create ⟨1, 8⟩ .selfRelay ∅ false false)
    let (s', progress) := alone next 6 (.going (.isAuthority 3 30)) s
    Open s 3 ∧ progress = .done () ∧ ¬ (s'.maker.leaveDecided 3 = true ∨ s'.isPending 3 = true) ∧
      s'.heldPastUnlock 3 40 = false ∧
      (s'.maker.resolveReconnectWith 3 (some 8) (s'.isPending 3)).2.admission = .rejected :=
  ⟨droppedEarly_open, rfl, by decide +kernel, by decide +kernel, by decide +kernel⟩

end RallyPoint.Relay
