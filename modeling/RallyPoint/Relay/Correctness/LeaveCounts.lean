import RallyPoint.Relay.Correctness.Leaves

/-!
# `Relay.Correctness.LeaveCounts` — a dropped leave's turn count needs the finalization proof

The count of a dropped leave is sound only if the slot's turns were cut off before they were counted.
Every way a leave enters the cache asks for the proof: a decided one takes the count from the departure
record only with the record's proof, a seeded or observed one is stripped of a count that comes without
it.

- `Proven`: a dropped leave with a count has the proof.
- `Recorded`: without the descriptor's flag a proof in the cache is one in the slot's departure record.
-/

namespace RallyPoint.Relay

open Lib Lib.Trace List

/-- A dropped leave with a count carries the proof. -/
def LeaveDirective.Proven (d : LeaveDirective) : Prop :=
  d.reason = leaveReasonDropped → d.finalTurnCount.isSome → d.finalized = true

theorem normalizeObservedLeave_proven (leave : LeaveDirective) (enabled : Bool) :
    (normalizeObservedLeave leave enabled).Proven := by
  intro hreason hcount
  unfold normalizeObservedLeave at hreason hcount ⊢
  split at hreason
  · rename_i hstrip
    rw [if_pos hstrip] at hcount
    cases hcount
  · rename_i hkeep
    rw [if_neg hkeep] at hcount ⊢
    by_contra hno
    exact hkeep ⟨hreason, Or.inl hcount, fun h => hno h.1⟩

/-- Where finalized drops are off, an observed dropped leave is stripped of the proof. -/
theorem normalizeObservedLeave_disabled {leave : LeaveDirective}
    (hreason : (normalizeObservedLeave leave false).reason = leaveReasonDropped) :
    (normalizeObservedLeave leave false).finalized = false := by
  unfold normalizeObservedLeave at hreason ⊢
  split at hreason
  · rename_i hstrip
    rw [if_pos hstrip]
  · rename_i hkeep
    rw [if_neg hkeep]
    by_contra hfin
    exact hkeep ⟨hreason, Or.inr (by simpa using hfin), fun h => absurd h.2 (by decide)⟩

namespace DecisionMaker

variable {m m' : DecisionMaker} {slot : SlotId}

theorem recordedLeave_proven (reason frame : Nat) : (m.recordedLeave slot reason frame).Proven := by
  intro hreason hcount
  have hdropped : reason = leaveReasonDropped := hreason
  have hcount' : (m.leaveCount slot reason).isSome := hcount
  show m.provenDrop slot reason = true
  unfold leaveCount at hcount'
  rw [if_pos hdropped] at hcount'
  by_contra hno
  rw [if_neg hno] at hcount'
  cases hcount'

theorem seededLeave_proven (d : DepartedSlot) : (m.seededLeave d).Proven := by
  intro hreason hcount
  have hkind : d.kind = .dropped := by
    cases hk : d.kind with
    | dropped => rfl
    | left =>
      have hleft : d.reason = leaveReasonDropped := hreason
      unfold DepartedSlot.reason at hleft
      rw [hk] at hleft
      cases hleft
  have hcount' : (m.seedCount d).isSome := hcount
  show (m.seedFinalized d && (m.seedCount d).isSome) = true
  rw [hcount', Bool.and_true]
  by_contra hno
  rw [seedCount, if_pos ⟨hkind, by simpa using hno⟩] at hcount'
  cases hcount'

/-- Every cached leave is proven. -/
def AllProven (m : DecisionMaker) : Prop := ∀ slot d, m.decidedLeaves.get? slot = some d → d.Proven

variable {e : List MakerEvent} {s : SlotId}

/-- Caching one more leave. -/
theorem forall_cached {P : SlotId → LeaveDirective → Prop} {directive : LeaveDirective}
    (h : ∀ slot d, m.decidedLeaves.get? slot = some d → P slot d) (hnew : P s directive) :
    ∀ slot d, (m.decidedLeaves.insert s directive).get? slot = some d → P slot d := by
  intro slot d hd
  rcases OrdMap.get?_insert_eq_some.mp hd with ⟨rfl, rfl⟩ | ⟨-, hd⟩
  · exact hnew
  · exact h slot d hd

theorem Step.allProven (hstep : Step m e m') (h : m.AllProven) : m'.AllProven := by
  cases hstep with
  | commit slot reason frame => exact forall_cached h (recordedLeave_proven (m := m) reason frame)
  | seed d => exact forall_cached h (seededLeave_proven (m := m) d)
  | adopt slot leave => exact forall_cached h (normalizeObservedLeave_proven leave m.finalizedDropsEnabled)
  | _ => exact h

/-! ## Without finalized drops -/

/-- The slot's departure record carries the proof. -/
def RecordFinalized (m : DecisionMaker) (slot : SlotId) : Prop :=
  ∃ record, m.departures.get? slot = some record ∧ record.finalized = true

/-- Finalized drops are off, and the proof of a cached dropped leave is the one in the slot's record. -/
structure Recorded (m : DecisionMaker) : Prop where
  disabled : m.finalizedDropsEnabled = false
  recorded : ∀ slot d, m.decidedLeaves.get? slot = some d → d.reason = leaveReasonDropped →
    d.finalized = true → m.RecordFinalized slot

/-- The proof in a record is never taken back while the record stands. -/
theorem RecordFinalized.noteDeparture (h : m.RecordFinalized s) (stamps : DepartureStamps) (reason : Nat)
    (epoch : Option Nat) : (m.noteDeparture slot stamps reason epoch).RecordFinalized s := by
  obtain ⟨record, hrecord, hfin⟩ := h
  unfold RecordFinalized DecisionMaker.noteDeparture
  dsimp only
  by_cases heq : s = slot
  · subst heq
    refine ⟨_, OrdMap.get?_insert_self _ _ _, ?_⟩
    rw [hrecord]
    unfold mergedDeparture
    dsimp only
    rw [hfin, Bool.true_or]
  · exact ⟨record, by rw [OrdMap.get?_insert, if_neg heq]; exact hrecord, hfin⟩

theorem provenDrop_recorded {reason : Nat} (h : m.provenDrop slot reason = true) : m.RecordFinalized slot := by
  unfold provenDrop at h
  rw [Bool.and_eq_true] at h
  cases hrecord : m.departures.get? slot with
  | none => rw [hrecord] at h; cases h.2
  | some record =>
    rw [hrecord, Option.any_some, Bool.and_eq_true] at h
    exact ⟨record, hrecord, h.2.1⟩

theorem seededLeave_disabled (h : m.finalizedDropsEnabled = false) (d : DepartedSlot) :
    (m.seededLeave d).finalized = false := by
  show (m.seedFinalized d && (m.seedCount d).isSome) = false
  rw [seedFinalized, h, Bool.and_false, Bool.false_and]

theorem Step.recorded (hstep : Step m e m') (h : m.Recorded) : m'.Recorded := by
  cases hstep with
  | depart slot stamps reason epoch =>
    exact ⟨h.disabled, fun s d hd hr hf => (h.recorded s d hd hr hf).noteDeparture stamps reason epoch⟩
  | commit slot reason frame =>
    exact ⟨h.disabled, forall_cached h.recorded fun _ hf => provenDrop_recorded hf⟩
  | seed d =>
    refine ⟨h.disabled, forall_cached h.recorded fun _ hf => ?_⟩
    have hno : (m.seededLeave d).finalized = false := seededLeave_disabled h.disabled d
    exact absurd (hno.symm.trans hf) (by decide)
  | adopt slot leave =>
    refine ⟨h.disabled, forall_cached h.recorded fun hr hf => ?_⟩
    rw [h.disabled] at hr hf
    exact absurd ((normalizeObservedLeave_disabled hr).symm.trans hf) (by decide)
  | reinstate slot departure hu hdep =>
    refine ⟨h.disabled, fun s d hd hr hf => ?_⟩
    obtain ⟨record, hrecord, hfin⟩ := h.recorded s d hd hr hf
    -- the slot that comes back has no cached leave
    have hne : s ≠ slot := by
      rintro rfl
      have hdecided : m.leaveDecided s = true := by
        show (m.decidedLeaves.get? s).isSome = true
        rw [show m.decidedLeaves.get? s = some d from hd]
        rfl
      exact absurd (hdecided.symm.trans hu) (by decide)
    exact ⟨record,
      by show (m.departures.erase slot).get? s = some record; rw [OrdMap.get?_erase, if_neg hne]; exact hrecord, hfin⟩
  | _ => exact ⟨h.disabled, h.recorded⟩

/-! ## After a resume -/

/-- In a resumed session a decided clean leave has no count. -/
theorem Step.resumed (hstep : Step m e m') (h : m.resumed = true) :
    m'.resumed = true ∧ ∀ d, MakerEvent.authored d ∈ e → d.reason ≠ leaveReasonDropped → d.finalTurnCount = none := by
  cases hstep with
  | commit slot reason frame =>
    refine ⟨h, fun d hd hreason => ?_⟩
    cases mem_singleton.mp hd
    have hclean : reason ≠ leaveReasonDropped := hreason
    show m.leaveCount slot reason = none
    unfold leaveCount
    rw [if_neg hclean, if_pos h]
  | resume => exact ⟨rfl, nofun⟩
  | seed d =>
    refine ⟨h, fun d' hd => ?_⟩
    cases mem_singleton.mp hd
  | _ => exact ⟨h, by simp⟩

/-- Every leave a call authors shows in its events, as decided unless the call seeds. -/
theorem authored_mem_events {op : MakerOp} {d : LeaveDirective} (hseed : ∀ departed, op ≠ .seedResumed departed)
    (hd : d ∈ (op.apply m).2.authored) : MakerEvent.authored d ∈ op.events m (op.apply m).2 := by
  cases op with
  | observeSync | observeLeave | resolveReconnectWith | reinstateSlot | finishFinalize | finalizeDrop => cases hd
  | seedResumed departed => exact absurd rfl (hseed departed)
  | _ => exact mem_append_right _ (mem_map_of_mem hd)

/-- A call other than a seeding one decides no clean leave with a count. -/
def Uncounted (call : MakerOp × MakerReply) : Prop :=
  (∀ departed, call.1 ≠ .seedResumed departed) → ∀ d ∈ call.2.authored, d.reason ≠ leaveReasonDropped →
    d.finalTurnCount = none

theorem log_uncounted (h : m.resumed = true) (ops : List MakerOp) : ∀ call ∈ m.log ops, Uncounted call := by
  refine (run_invariant (I := fun (m : DecisionMaker) log => m.resumed = true ∧
    ∀ call ∈ log, Uncounted call) ops ⟨h, by simp⟩ ?_).2
  rintro m log op _ ⟨hm, hlog⟩
  have hsteps : Steps Step m (op.events m (op.apply m).2) (op.apply m).1 := apply_steps op
  obtain ⟨hresumed, hevents⟩ := hsteps.keeps
    (I := fun m' es => m'.resumed = true ∧ ∀ d, MakerEvent.authored d ∈ es →
      d.reason ≠ leaveReasonDropped → d.finalTurnCount = none)
    (fun m₁ es e m₂ hs h₁ => ⟨(hs.resumed h₁.1).1, fun d hd =>
      (mem_append.mp hd).elim (h₁.2 d) ((hs.resumed h₁.1).2 d)⟩) [] ⟨hm, by simp⟩
  refine ⟨hresumed, fun call hcall => ?_⟩
  obtain hcall | hcall := mem_append.mp hcall
  · exact hlog call hcall
  · cases mem_singleton.mp hcall
    exact fun hseed d hd => hevents d (authored_mem_events hseed hd)

/-- Once seeded, a session stays resumed. -/
theorem resumed_of_seeded {departed : List DepartedSlot} {ops : List MakerOp} (h : MakerOp.seedResumed departed ∈ ops) :
    (m.after ops).resumed = true := by
  obtain ⟨earlier, later, rfl⟩ := append_of_mem h
  rw [after_append]
  rw [after_cons]
  exact after_keeps (I := fun m => m.resumed = true) (fun _ _ _ hs hr => (hs.resumed hr).1) rfl later

/-- **A dropped leave carries a count only with the finalization proof**, in every state a session
    reaches. Where finalized drops are off, a cached dropped leave has the proof only if the slot's
    departure record has it. Once the session was seeded, a leave this relay decides for a reason other
    than dropped carries no count. -/
theorem dropped_count_needs_proof (bounds : BufferBounds) (authority : Authority) (observers : Finset SlotId)
    (finalizedDrops rollback : Bool) (earlier later : List MakerOp) :
    let start := create bounds authority observers finalizedDrops rollback
    let m := start.after (earlier ++ later)
    (∀ slot d n, m.decidedLeaves.get? slot = some d → d.reason = leaveReasonDropped →
      d.finalTurnCount = some n → d.finalized = true) ∧
    (finalizedDrops = false → (∀ slot record, m.departures.get? slot = some record → record.finalized = false) →
      ∀ slot d, m.decidedLeaves.get? slot = some d → d.reason = leaveReasonDropped → d.finalized = false) ∧
    ((∃ departed, MakerOp.seedResumed departed ∈ earlier) → ∀ call ∈ (start.after earlier).log later,
      (∀ departed, call.1 ≠ .seedResumed departed) → ∀ d ∈ call.2.authored,
        d.reason ≠ leaveReasonDropped → d.finalTurnCount = none) := by
  intro start m
  have hempty : ∀ slot d, start.decidedLeaves.get? slot ≠ some d := nofun
  refine ⟨?_, ?_, ?_⟩
  · intro slot d n hd hreason hcount
    have hproven : m.AllProven := after_keeps (fun _ _ _ hs hp => hs.allProven hp) (fun s d hd => absurd hd (hempty s d)) _
    exact hproven slot d hd hreason (by rw [hcount]; rfl)
  · rintro rfl hrecords slot d hd hreason
    have hrecorded : m.Recorded := after_keeps (fun _ _ _ hs hr => hs.recorded hr) ⟨rfl,
      fun s d hd => absurd hd (hempty s d)⟩ _
    by_contra hfin
    obtain ⟨record, hrecord, hproof⟩ := hrecorded.recorded slot d hd hreason (by simpa using hfin)
    rw [hrecords slot record hrecord] at hproof
    cases hproof
  · rintro ⟨departed, hseeded⟩
    exact log_uncounted (resumed_of_seeded hseeded) later

/-- A session seeded with a clean leave and an unproven drop: what is cached, and decided afterwards. -/
theorem dropped_count_needs_proof_resumed :
    let start := create ⟨1, 8⟩ .selfRelay ∅ false false
    let earlier : List MakerOp := [.seedResumed [⟨1, .left, some 40, false⟩, ⟨2, .dropped, some 50, true⟩]]
    let later : List MakerOp := [.recordDeparture 3 { finalTurnCount := some 60 } leaveReasonLeft,
      .forceDecideLeave 3 leaveReasonLeft]
    ((start.log earlier).flatMap (·.2.authored)).map (·.finalTurnCount) = [some 40, none] ∧
      ((start.after earlier).log later).flatMap (·.2.authored.map (·.reason)) = [leaveReasonLeft] ∧
      ∀ call ∈ (start.after earlier).log later, (∀ departed, call.1 ≠ .seedResumed departed) →
        ∀ d ∈ call.2.authored, d.reason ≠ leaveReasonDropped → d.finalTurnCount = none := by
  intro start earlier later
  refine ⟨by decide +kernel, by decide +kernel, ?_⟩
  exact (dropped_count_needs_proof ⟨1, 8⟩ .selfRelay ∅ false false earlier later).2.2 ⟨_, mem_singleton_self _⟩

/-- A clean leave is cached with the flag it comes with, also where finalized drops are off. -/
theorem observed_clean_leave_keeps_flag :
    let start := create ⟨1, 8⟩ .peer ∅ false false
    let leave : LeaveDirective := ⟨3, leaveReasonLeft, 7, 1, some 9, true⟩
    let m := start.after [.observeLeave leave]
    m.decidedLeaves.get? 3 = some leave ∧ leave.finalized = true ∧ m.finalizedDropsEnabled = false ∧
      m.departures.values.map (·.finalized) = [false] := by
  decide +kernel

end DecisionMaker

end RallyPoint.Relay
