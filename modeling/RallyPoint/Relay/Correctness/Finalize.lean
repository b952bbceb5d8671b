import RallyPoint.Relay.Correctness.Leaves

/-!
# `Relay.Correctness.Finalize` — when a sealed drop stays sealed

A home relay answers a finalization with a count only after it has sealed the slot. But the same request
may come again before the leave is decided, and each time the gate is read anew: a reading that proves no
count lifts the seal, and the slot can come back although its count was given away
(`repeated_finalize_lifts_the_seal`).

- `Held`: sealed, stamped with the count, and not yet decided.
- `Steady`: the calls that leave it so. A gate read again has to prove the same count.
- `sealed_drop_stays_sealed`: in a run of such calls the seal holds, the answer stays the same, and so
  does the count the leave carries.
-/

namespace RallyPoint.Relay

open Lib Lib.Trace List Option OrdMap

/-- The leave carries the count `n`, with its proof. -/
def LeaveDirective.Carries (d : LeaveDirective) (n : Nat) : Prop := d.finalTurnCount = some n ∧ d.finalized = true

/-- The answer of a call to a request for the drop of `slot` in its generation `epoch`, which the
    finishing half of a request does not name. -/
def MakerOp.answer (slot : SlotId) (epoch : Option Nat) : MakerOp → MakerReply → Option FinalizeOutcome
  | finalizeDrop s e _, .finalize outcome => if s = slot ∧ e = epoch then some outcome else none
  | sealForFinalize s e, .sealed refused => if s = slot ∧ e = epoch then refused else none
  | finishFinalize s _, .finalize outcome => if s = slot then some outcome else none
  | _, _ => none

/-- What a change may emit while the drop of `slot` is sealed with the count `n`. -/
def MakerEvent.Spares (slot : SlotId) (n : Nat) : MakerEvent → Prop
  | authored d => d.slot = slot.toWire → d.reason = leaveReasonDropped
  | seeded d => d.slot = slot.toWire → d.Carries n
  | heard leave => SlotId.ofWire leave.slot = some slot → leave.Carries n
  | reinstated s => s ≠ slot
  | unsealed s => s ≠ slot
  | _ => True

namespace DecisionMaker

variable {m m' : DecisionMaker} {slot : SlotId} {epoch : Option Nat} {n : Nat}

/-! ## Steady calls -/

/-- The reading of the gate proves the count `n`. -/
def Proves (m : DecisionMaker) (slot : SlotId) (n : Nat) : ForwardGateReading → Prop
  | .count count => count = n
  | .neverForwarded => n = 0 ∧ m.homeForwardedNothing slot = true
  | .unsound => False

/-- A promotion that decides the slot's departure decides a drop. -/
def PromotesDrop (m : DecisionMaker) (slot : SlotId) (authority : Authority) (held : Finset SlotId) : Prop :=
  m.authority = .peer → authority = .selfRelay → slot ∉ held →
    ∀ record, m.departures.get? slot = some record → record.reason = leaveReasonDropped

/-- The call leaves a drop of `slot` sealed with the count `n` as it is. Nothing is asked of calls that
    change no seal, departure or leave. -/
def Steady (m : DecisionMaker) (slot : SlotId) (n : Nat) : MakerOp → Prop
  -- a request that gets as far as the gate reads the same count there
  | .finishFinalize s reading => s = slot → m.Proves slot n reading
  | .finalizeDrop s e reading => s = slot → m.Sealable slot e → m.Proves slot n reading
  -- `reinstate_slot` itself does not look at the seal
  | .reinstateSlot s => s = slot → m.leaveDecided slot = true
  -- the leave that is decided for the slot is a drop
  | .decideLeave s reason =>
    s = slot → m.leaveDecided slot = false → m.authority = .selfRelay → reason = leaveReasonDropped
  | .forceDecideLeave s reason => s = slot → m.leaveDecided slot = false → reason = leaveReasonDropped
  | .setAuthority authority held _ => m.leaveDecided slot = false → m.PromotesDrop slot authority held
  | .syncDescriptor _ authority held _ => m.leaveDecided slot = false → m.PromotesDrop slot authority held
  -- and one that comes from elsewhere carries the same count
  | .observeLeave leave =>
    SlotId.ofWire leave.slot = some slot → m.leaveDecided slot = false →
      (normalizeObservedLeave leave m.finalizedDropsEnabled).Carries n
  | .seedResumed departed =>
    m.leaveDecided slot = false → ∀ d ∈ departed, d.slot = slot → m.seedFinalized d = true ∧ d.finalTurnCount = some n
  | _ => True

variable {op : MakerOp} {reading : ForwardGateReading} {directive : LeaveDirective} {e : List MakerEvent}

theorem provenCount_of_proves (h : m.Proves slot n reading) : m.provenCount slot reading = some n := by
  cases reading with
  | count count => exact congrArg some h
  | neverForwarded =>
    obtain ⟨rfl, hnothing⟩ := h
    exact if_pos hnothing
  | unsound => exact h.elim

/-! ## Sealed drops -/

/-- The departure record carries the count `n` with its proof, and the generation `epoch` if any. -/
structure Stamped (record : Departure) (epoch : Option Nat) (n : Nat) : Prop where
  count : record.finalTurnCount = some n
  finalized : record.finalized = true
  current : ∀ generation, epoch = some generation → record.connectionEpoch = some generation

/-- The drop of the slot is sealed with the count `n`, and not decided. -/
structure Held (m : DecisionMaker) (slot : SlotId) (epoch : Option Nat) (n : Nat) : Prop where
  undecided : m.leaveDecided slot = false
  locked : slot ∈ m.finalizingDrops
  down : ∀ generation, m.connectionStates.get? slot ≠ some (.up generation)
  stamped : ∃ record, m.departures.get? slot = some record ∧ Stamped record epoch n

/-- The drop is sealed with the count, or its leave was decided with it. -/
def Sealed (m : DecisionMaker) (slot : SlotId) (epoch : Option Nat) (n : Nat) : Prop :=
  m.Held slot epoch n ∨ ∃ d, m.decidedLeaves.get? slot = some d ∧ d.Carries n

theorem Held.departed (h : m.Held slot epoch n) : m.departed slot = true := by
  obtain ⟨record, hrecord, -⟩ := h.stamped
  rw [DecisionMaker.departed, hrecord]
  rfl

/-! ## What one change does to a sealed drop -/

/-- A later departure of the slot does not change the count, nor a generation already there. -/
theorem Stamped.merged {record : Departure} (h : Stamped record epoch n) (stamps : DepartureStamps) (reason : Nat)
    (generation : Option Nat) (state : Option SlotState) :
    Stamped (mergedDeparture (some record) stamps reason generation state) epoch n := by
  refine ⟨?_, ?_, fun g hg => ?_⟩
  · show (record.finalTurnCount <|> _) = _
    rw [h.count]
    rfl
  · show (record.finalized || _) = true
    rw [h.finalized, Bool.true_or]
  · show (record.connectionEpoch <|> _) = _
    rw [h.current g hg]
    rfl

theorem Held.noteDeparture (h : m.Held slot epoch n) (s : SlotId) (stamps : DepartureStamps) (reason : Nat)
    (generation : Option Nat) : (m.noteDeparture s stamps reason generation).Held slot epoch n := by
  obtain ⟨record, hrecord, hstamped⟩ := h.stamped
  refine ⟨h.undecided, h.locked, h.down, ?_⟩
  show ∃ record, (m.departures.insert s _).get? slot = some record ∧ _
  rw [get?_insert]
  by_cases hs : slot = s
  · subst hs
    rw [if_pos rfl, hrecord]
    exact ⟨_, rfl, hstamped.merged _ _ _ _⟩
  · rw [if_neg hs]
    exact ⟨record, hrecord, hstamped⟩

/-- **A drop decided from its record carries the count.** -/
theorem Held.recordedLeave (h : m.Held slot epoch n) (frame : Nat) :
    (m.recordedLeave slot leaveReasonDropped frame).Carries n := by
  obtain ⟨record, hrecord, hstamped⟩ := h.stamped
  have hproven : m.provenDrop slot leaveReasonDropped = true :=
    by simp [provenDrop, hrecord, hstamped.count, hstamped.finalized]
  refine ⟨?_, hproven⟩
  show m.leaveCount slot leaveReasonDropped = some n
  unfold leaveCount
  rw [if_pos rfl, if_pos hproven, hrecord]
  exact hstamped.count

/-- A leave enters the cache: if it is the slot's own, it has to carry the count. -/
theorem Held.cacheLeave (h : m.Held slot epoch n) {s : SlotId} (seq : Nat)
    (hown : s = slot → directive.Carries n) :
    ({ m with nextLeaveSeq := seq }.cacheLeave s directive).Sealed slot epoch n := by
  by_cases hs : slot = s
  · subst hs
    refine .inr ⟨directive, ?_, hown rfl⟩
    show (m.decidedLeaves.insert slot directive).get? slot = some directive
    rw [get?_insert, if_pos rfl]
  · refine .inl ⟨?_, h.locked, h.down, h.stamped⟩
    rw [leaveDecided_cacheLeave, decide_eq_false hs]
    exact h.undecided

theorem Step.held (hstep : Step m e m') (h : m.Held slot epoch n)
    (hspares : ∀ ev ∈ e, ev.Spares slot n) : m'.Sealed slot epoch n := by
  cases hstep with
  | up s generation hd =>
    -- a connection comes up only where no departure is recorded
    have hne : slot ≠ s := by
      rintro rfl
      exact absurd (h.departed.symm.trans hd) (by decide)
    refine .inl ⟨h.undecided, h.locked, fun g => ?_, h.stamped⟩
    show (m.connectionStates.insert s _).get? slot ≠ _
    rw [get?_insert, if_neg hne]
    exact h.down g
  | down s generation =>
    refine .inl ⟨h.undecided, h.locked, fun g => ?_, h.stamped⟩
    show (m.connectionStates.insert s _).get? slot ≠ _
    rw [get?_insert]
    split
    · simp
    · exact h.down g
  | depart s stamps reason generation => exact .inl (h.noteDeparture s stamps reason generation)
  | commit s reason frame =>
    -- the only leave whose count is taken from the record
    refine h.cacheLeave _ ?_
    rintro rfl
    have hdropped : reason = leaveReasonDropped := hspares _ mem_cons_self rfl
    subst hdropped
    exact h.recordedLeave frame
  | seed d =>
    refine h.cacheLeave _ ?_
    rintro rfl
    exact hspares _ mem_cons_self rfl
  | adopt s leave hs =>
    refine h.cacheLeave _ ?_
    rintro rfl
    exact hspares _ mem_cons_self (by rw [normalizeObservedLeave_slot]; exact hs)
  | reinstate s departure =>
    have hne : slot ≠ s := (hspares _ mem_cons_self : s ≠ slot).symm
    refine .inl ⟨h.undecided, h.locked, h.down, ?_⟩
    show ∃ record, (m.departures.erase s).get? slot = some record ∧ _
    rw [get?_erase, if_neg hne]
    exact h.stamped
  | lock s => exact .inl ⟨h.undecided, Finset.mem_insert_of_mem h.locked, h.down, h.stamped⟩
  | unlock s =>
    have hne : slot ≠ s := (hspares _ mem_cons_self : s ≠ slot).symm
    exact .inl ⟨h.undecided, Finset.mem_erase.mpr ⟨hne, h.locked⟩, h.down, h.stamped⟩
  | _ => exact .inl ⟨h.undecided, h.locked, h.down, h.stamped⟩

theorem Step.sealed (hstep : Step m e m') (h : m.Sealed slot epoch n)
    (hspares : ∀ ev ∈ e, ev.Spares slot n) : m'.Sealed slot epoch n := by
  obtain h | ⟨d, hd, hcarries⟩ := h
  · exact hstep.held h hspares
  · exact .inr ⟨d, hstep.leave_stays hd, hcarries⟩

/-- A sealed drop has departed, or is decided. -/
theorem Sealed.closed (h : m.Sealed slot epoch n) : m.departed slot = true ∨ m.leaveDecided slot = true := by
  obtain h | ⟨d, hd, -⟩ := h
  · exact .inl h.departed
  · exact .inr (leaveDecided_of_some hd)

/-! ## The slot's own leaves -/

/-- A leave seeded for the slot carries the count of its seed. -/
theorem seedResumed_carries {departed : List DepartedSlot}
    (hseeds : ∀ d ∈ departed, d.slot = slot → m.seedFinalized d = true ∧ d.finalTurnCount = some n)
    (hd : directive ∈ (m.seedResumed departed).2) (hs : directive.slot = slot.toWire) : directive.Carries n := by
  have hfold := mem_foldl_authored (P := fun m' => m'.finalizedDropsEnabled = m.finalizedDropsEnabled)
    (Q := fun (d : DepartedSlot) (directive : LeaveDirective) => directive.slot = d.slot.toWire ∧
      directive.finalTurnCount = m.seedCount d ∧ directive.finalized = (m.seedFinalized d && (m.seedCount d).isSome))
    seedDeparted ?_ ?_ departed [] rfl directive hd
  · obtain hnil | ⟨d, hmem, hwire, hcount, hfinalized⟩ := hfold
    · cases hnil
    · have hslot : d.slot = slot := SlotId.toWire_injective (hwire.symm.trans hs)
      obtain ⟨hproof, hn⟩ := hseeds d hmem hslot
      have hseed : m.seedCount d = some n := by
        unfold seedCount
        rw [hproof, if_neg (by simp), hn]
      rw [hseed] at hcount hfinalized
      exact ⟨hcount, by rw [hfinalized, hproof]; rfl⟩
  · intro m' d h
    unfold seedDeparted
    dsimp only
    split <;> exact h
  · -- what a seed keeps depends on nothing but the descriptor's flag
    intro m' d directive h hauthored
    unfold seedDeparted at hauthored
    dsimp only at hauthored
    split at hauthored
    · cases hauthored
    · cases hauthored
      have hsame : ∀ m'' : DecisionMaker, m''.finalizedDropsEnabled = m.finalizedDropsEnabled →
          m''.seedFinalized d = m.seedFinalized d ∧ m''.seedCount d = m.seedCount d := by
        intro m'' h''
        unfold seedCount seedFinalized
        rw [h'']
        exact ⟨rfl, rfl⟩
      obtain ⟨hfinalized, hcount⟩ := hsame (m'.noteDeparture d.slot
        { finalTurnCount := m'.seedCount d, finalized := m'.seedFinalized d } d.reason none) h
      refine ⟨rfl, hcount, ?_⟩
      show (_ && isSome _) = _
      rw [hfinalized, hcount]

/-- A promotion decides a departure for the reason it was recorded with. -/
theorem setAuthority_drops {authority : Authority} {held : Finset SlotId} {order : List SlotId}
    (hpromotes : m.PromotesDrop slot authority held)
    (hd : directive ∈ (m.setAuthority authority held order).2.2) (hs : directive.slot = slot.toWire) :
    directive.reason = leaveReasonDropped := by
  obtain ⟨hpeer, hself, s, record, hrecord, _, hheld, hwire, hreason⟩ := mem_setAuthority_fresh hd
  cases SlotId.toWire_injective (hwire.symm.trans hs)
  exact hreason.trans (hpromotes hpeer hself hheld record hrecord)

theorem spares_authored {reply : MakerReply} {ev : MakerEvent}
    (hev : ev ∈ (op.handsTo.filter (m.authority ≠ ·)).toList.map MakerEvent.handover ++
      reply.authored.map MakerEvent.authored)
    (hdropped : ∀ d ∈ reply.authored, d.slot = slot.toWire → d.reason = leaveReasonDropped) : ev.Spares slot n := by
  obtain hmem | hmem := mem_append.mp hev
  · obtain ⟨a, -, rfl⟩ := mem_map.mp hmem
    trivial
  · obtain ⟨d, hd, rfl⟩ := mem_map.mp hmem
    exact hdropped d hd

/-! ## What a call does to it -/

/-- A reconnect of a sealed slot is refused. -/
theorem Held.reconnect_refused (h : m.Held slot epoch n) (observed : Option Nat) (hold : Bool) :
    (m.resolveReconnectWith slot observed hold).2.admission = .rejected := by
  unfold resolveReconnectWith
  split
  · rfl
  split
  · rfl
  · rw [if_pos h.locked]

/-- A steady call emits nothing that would break the seal. -/
theorem Held.spared (h : m.Held slot epoch n) (hop : m.Steady slot n op) :
    ∀ ev ∈ op.events m (op.apply m).2, ev.Spares slot n := by
  intro ev hev
  cases op with
  | observeSync =>
    cases mem_singleton.mp hev
    trivial
  -- leaves of the slot: observed, seeded, decided
  | observeLeave leave =>
    obtain ⟨-, hev⟩ := mem_ite_nil_right.mp hev
    cases mem_singleton.mp hev
    intro hs
    rw [normalizeObservedLeave_slot] at hs
    exact hop hs h.undecided
  | seedResumed departed =>
    obtain ⟨d, hd, rfl⟩ := mem_map.mp hev
    exact seedResumed_carries (hop h.undecided) hd
  | decideLeave s reason =>
    refine spares_authored hev fun d hd hs => ?_
    obtain ⟨hauthority, hwire, hreason⟩ := decideLeave_authored (mem_toList.mp hd)
    cases SlotId.toWire_injective (hwire.symm.trans hs)
    exact hreason.trans (hop rfl h.undecided hauthority)
  | forceDecideLeave s reason =>
    refine spares_authored hev fun d hd hs => ?_
    obtain ⟨hwire, hreason⟩ := forceDecideLeave_authored (mem_toList.mp hd)
    cases SlotId.toWire_injective (hwire.symm.trans hs)
    exact hreason.trans (hop rfl h.undecided)
  | setAuthority authority held order =>
    exact spares_authored hev fun d => setAuthority_drops (hop h.undecided)
  | syncDescriptor bounds authority held order =>
    exact spares_authored hev fun d => setAuthority_drops (m := { m with bounds }) (hop h.undecided)
  -- a reconnect is stopped by the seal; the outright reinstatement is not, and is ruled out
  | resolveReconnectWith s observed hold =>
    obtain ⟨hrestored, hev⟩ := mem_ite_nil_right.mp hev
    cases mem_singleton.mp hev
    rintro rfl
    have hrefused := h.reconnect_refused observed hold
    simp only [MakerOp.apply, Prod.map, MakerReply.reinstates] at hrestored
    split at hrestored <;> simp_all
  | reinstateSlot s =>
    obtain ⟨-, hev⟩ := mem_ite_nil_right.mp hev
    cases mem_singleton.mp hev
    intro hs
    exact absurd ((hop hs).symm.trans h.undecided) (by decide)
  -- the seal is lifted only by a reading that proves nothing
  | finishFinalize s reading =>
    obtain ⟨hcount, hev⟩ := mem_ite_nil_right.mp hev
    cases mem_singleton.mp hev
    rintro rfl
    cases (provenCount_of_proves (hop rfl)).symm.trans hcount
  | finalizeDrop s e reading =>
    obtain ⟨⟨hsealed, hcount⟩, hev⟩ := mem_ite_nil_right.mp hev
    cases mem_singleton.mp hev
    rintro rfl
    cases (provenCount_of_proves (hop rfl (sealable_of_sealed hsealed))).symm.trans hcount
  | _ => exact spares_authored hev (by rintro _ ⟨⟩)

/-- **A steady call leaves the drop sealed**, and brings no connection of the slot up. -/
theorem Sealed.apply (h : m.Sealed slot epoch n) (hop : m.Steady slot n op) :
    (op.apply m).1.Sealed slot epoch n ∧
      ∀ g, (op.apply m).1.connectionStates.get? slot = some (.up g) → m.connectionStates.get? slot = some (.up g) := by
  obtain hheld | ⟨d, hd, hcarries⟩ := id h
  · have hsteps : Steps Step m (op.events m (op.apply m).2) (op.apply m).1 := apply_steps op
    have hkept := hsteps.keeps (I := fun m' es => (∀ ev ∈ es, ev.Spares slot n) → m'.Sealed slot epoch n ∧
        ∀ g, m'.connectionStates.get? slot = some (.up g) → m.connectionStates.get? slot = some (.up g))
      (fun m₁ es e m₂ hs h₁ hspares => by
        obtain ⟨hsealed, hdown⟩ := h₁ fun ev hev => hspares ev (mem_append_left _ hev)
        exact ⟨hs.sealed hsealed fun ev hev => hspares ev (mem_append_right _ hev),
          fun g hup => hdown g (hs.stays_down hsealed.closed hup)⟩) [] fun _ => ⟨h, fun _ => id⟩
    exact hkept (hheld.spared hop)
  · have hkept := (apply_steps (m := m) op).keeps (I := fun m' _ => m'.decidedLeaves.get? slot = some d)
      (fun _ _ _ _ hs h₁ => hs.leave_stays h₁) [] hd
    exact ⟨.inr ⟨d, hkept, hcarries⟩, fun g hup => apply_stays_down hd op hup⟩

/-- **A steady call does not admit the slot.** -/
theorem Sealed.not_admitted (h : m.Sealed slot epoch n) (hop : m.Steady slot n op) :
    op.admitted (op.apply m).2 ≠ some slot := by
  obtain hheld | ⟨d, hd, -⟩ := h
  · refine not_admitted_of_refused (.inl hheld.departed) op hheld.reconnect_refused ?_
    rintro rfl
    exact absurd ((hop rfl).symm.trans hheld.undecided) (by decide)
  · exact DecisionMaker.not_admitted (leaveDecided_of_some hd) op

/-! ## What a request is answered -/

/-- A request for the departure's generation still gets as far as the gate: the record was given no
    generation since, the slot was not moved here, and there is a frame to schedule by; or the leave is
    decided. -/
def Askable (m : DecisionMaker) (slot : SlotId) (epoch : Option Nat) : Prop :=
  m.leaveDecided slot = false →
    (epoch = none → m.departureEpoch slot = none) ∧ slot ∉ m.rehomedHomes ∧ m.countedLeaveSchedulable slot = true

theorem Held.sealable (h : m.Held slot epoch n) (hask : m.Askable slot epoch) : m.Sealable slot epoch := by
  obtain ⟨hnone, hhome, hsched⟩ := hask h.undecided
  refine ⟨h.undecided, ?_, ?_, hhome, hsched⟩
  · unfold connectionIsUp
    split
    · rename_i g hup
      exact absurd hup (h.down g)
    · rfl
  · cases epoch with
    | none => exact hnone rfl
    | some g =>
      obtain ⟨record, hrecord, hstamped⟩ := h.stamped
      rw [departureEpoch, hrecord]
      exact hstamped.current g rfl

/-- A decided request is answered from the directive. -/
theorem sealForFinalize_decided {d : LeaveDirective} (hd : m.decidedLeaves.get? slot = some d) (hcarries : d.Carries n)
    (e : Option Nat) : m.sealForFinalize slot e = (m, some (.finalized n)) := by
  unfold sealForFinalize
  rw [hd]
  dsimp only
  rw [hcarries.1, hcarries.2]

theorem finishFinalize_answer (h : m.provenCount slot reading = some n) :
    (m.finishFinalize slot reading).2 = .finalized n := by
  unfold finishFinalize
  rw [h]

/-- **A request that comes again is answered with the same count.** -/
theorem Sealed.answer (h : m.Sealed slot epoch n) (hop : m.Steady slot n op) (hask : m.Askable slot epoch)
    {outcome : FinalizeOutcome} (hanswer : op.answer slot epoch (op.apply m).2 = some outcome) : outcome = .finalized n := by
  have hseal : (m.sealForFinalize slot epoch).2 = none ∨ m.sealForFinalize slot epoch = (m, some (.finalized n)) := by
    obtain h | ⟨d, hd, hcarries⟩ := h
    · rw [(h.sealable hask).seals]
      exact .inl rfl
    · exact .inr (sealForFinalize_decided hd hcarries epoch)
  cases op with
  | sealForFinalize s e =>
    simp only [MakerOp.apply, Prod.map, MakerOp.answer] at hanswer
    split at hanswer
    · rename_i heq
      obtain ⟨rfl, rfl⟩ := heq
      obtain hnone | hsome := hseal
      · cases hnone.symm.trans hanswer
      · rw [hsome] at hanswer
        exact (some.inj hanswer).symm
    · cases hanswer
  | finishFinalize s reading =>
    simp only [MakerOp.apply, Prod.map, MakerOp.answer] at hanswer
    split at hanswer
    · rename_i heq
      subst heq
      rw [finishFinalize_answer (provenCount_of_proves (hop rfl))] at hanswer
      exact (some.inj hanswer).symm
    · cases hanswer
  | finalizeDrop s e reading =>
    simp only [MakerOp.apply, Prod.map, MakerOp.answer] at hanswer
    split at hanswer
    · rename_i heq
      obtain ⟨rfl, rfl⟩ := heq
      cases some.inj hanswer
      obtain hnone | hsome := hseal
      · have hcount := provenCount_of_proves (hop rfl (sealable_of_sealed hnone))
        unfold finalizeDrop
        rw [(sealable_of_sealed hnone).seals]
        exact finishFinalize_answer ((provenCount_sealed reading _).trans hcount)
      · unfold finalizeDrop
        rw [hsome]
    · cases hanswer
  | _ => cases hanswer

/-! ## The first answer -/

/-- The seal of the slot is taken for its generation `epoch`, and no count is recorded yet. -/
structure Claimed (m : DecisionMaker) (slot : SlotId) (epoch : Option Nat) : Prop where
  undecided : m.leaveDecided slot = false
  locked : slot ∈ m.finalizingDrops
  down : m.connectionIsUp slot = false
  current : m.departureEpoch slot = epoch
  uncounted : (m.departures.get? slot).bind (·.finalTurnCount) = none

/-- **A proven count is stamped behind the seal.** -/
theorem Claimed.finish (h : m.Claimed slot epoch)
    (hanswer : (m.finishFinalize slot reading).2 = .finalized n) : (m.finishFinalize slot reading).1.Held slot epoch n := by
  unfold finishFinalize at hanswer ⊢
  split at hanswer
  · cases hanswer
    refine ⟨h.undecided, h.locked, ?_, ?_⟩
    · intro g hup
      have hdown := h.down
      have hup' : m.connectionStates.get? slot = some (.up g) := hup
      rw [connectionIsUp, hup'] at hdown
      cases hdown
    · refine ⟨_, get?_insert_self .., ?_⟩
      have hcurrent := h.current
      have huncounted := h.uncounted
      rw [departureEpoch] at hcurrent
      cases hrecord : m.departures.get? slot with
      | none =>
        rw [hrecord] at hcurrent
        exact ⟨rfl, rfl, fun g hg => absurd (hcurrent.trans hg) (by simp)⟩
      | some record =>
        rw [hrecord] at hcurrent huncounted
        refine ⟨?_, Bool.or_true _, fun g hg => ?_⟩
        · show (record.finalTurnCount <|> _) = _
          rw [show record.finalTurnCount = none from huncounted]
          rfl
        · show (record.connectionEpoch <|> _) = _
          rw [show record.connectionEpoch = some g from hcurrent.trans hg]
          rfl
  · cases hanswer

/-- The call answers a request for the drop of `slot` in its generation `epoch` with the count `n`,
    before any count was recorded. Where other calls came between its halves, the seal has still to be
    there. -/
def FirstAnswer (m : DecisionMaker) (slot : SlotId) (epoch : Option Nat) (n : Nat) : MakerOp → Prop
  | .finalizeDrop s e reading =>
    (s = slot ∧ e = epoch) ∧ (m.finalizeDrop s e reading).2 = .finalized n ∧
      (m.leaveDecided slot = false → (m.departures.get? slot).bind (·.finalTurnCount) = none)
  | .finishFinalize s reading => s = slot ∧ (m.finishFinalize s reading).2 = .finalized n ∧ m.Claimed slot epoch
  | _ => False

/-- A request that is answered at once with a count is answered from the directive. -/
theorem sealForFinalize_count {e : Option Nat} (h : (m.sealForFinalize slot e).2 = some (.finalized n)) :
    (m.sealForFinalize slot e).1 = m ∧ ∃ d, m.decidedLeaves.get? slot = some d ∧ d.Carries n := by
  unfold sealForFinalize at h ⊢
  cases hleave : m.decidedLeaves.get? slot with
  | some d =>
    rw [hleave] at h
    refine ⟨rfl, d, rfl, ?_⟩
    dsimp only at h
    split at h
    · rename_i hfinalized hcount
      cases h
      exact ⟨hcount, hfinalized⟩
    · cases h
  | none =>
    -- every other check refuses without a count
    rw [hleave] at h
    dsimp only at h
    repeat' split at h
    all_goals cases h

theorem FirstAnswer.sealed (h : m.FirstAnswer slot epoch n op) : (op.apply m).1.Sealed slot epoch n := by
  cases op with
  | finalizeDrop s e reading =>
    obtain ⟨⟨rfl, rfl⟩, hanswer, huncounted⟩ := h
    show (m.finalizeDrop s e reading).1.Sealed s e n
    unfold finalizeDrop at hanswer ⊢
    rcases hseal : m.sealForFinalize s e with ⟨m', _ | outcome⟩
    · have hsealable := sealable_of_sealed (congrArg Prod.snd hseal)
      have hm' := hsealable.seals.symm.trans hseal
      rw [hseal] at hanswer
      cases congrArg Prod.fst hm'
      have hclaimed : { m with finalizingDrops := insert s m.finalizingDrops }.Claimed s e :=
        ⟨hsealable.undecided, Finset.mem_insert_self _ _, hsealable.down, hsealable.current, huncounted hsealable.undecided⟩
      exact .inl (hclaimed.finish hanswer)
    · rw [hseal] at hanswer
      cases (hanswer : outcome = .finalized n)
      obtain ⟨hsame, hdecided⟩ := sealForFinalize_count (congrArg Prod.snd hseal)
      rw [hseal] at hsame
      cases hsame
      exact .inr hdecided
  | finishFinalize s reading =>
    obtain ⟨rfl, hanswer, hclaimed⟩ := h
    exact .inl (hclaimed.finish hanswer)
  | _ => exact h.elim

/-! ## Whole runs -/

/-- Every call of the run is steady when it is made. -/
def SteadyRun (slot : SlotId) (n : Nat) : DecisionMaker → List MakerOp → Prop
  | _, [] => True
  | m, op :: ops => m.Steady slot n op ∧ SteadyRun slot n (op.apply m).1 ops

theorem Sealed.run {ops : List MakerOp} (h : m.Sealed slot epoch n) (hrun : SteadyRun slot n m ops) :
    (m.after ops).Sealed slot epoch n := by
  induction ops generalizing m with
  | nil => exact h
  | cons op ops ih =>
    rw [after_cons]
    exact ih (h.apply hrun.1).1 hrun.2

/-- **A sealed drop stays sealed in a steady run.** Once a request for the slot's drop was answered with
    the count `n`, then after any further steady calls: a leave decided for the slot carries `n` and its
    proof, no steady call admits the slot or brings a connection of it up, and a request that comes again
    is answered with `n`. -/
theorem sealed_drop_stays_sealed (m : DecisionMaker) (slot : SlotId) (epoch : Option Nat) (n : Nat) (call : MakerOp)
    (later : List MakerOp) (hcall : m.FirstAnswer slot epoch n call) (hrun : SteadyRun slot n (call.apply m).1 later) :
    let m' := (call.apply m).1.after later
    (∀ d, m'.decidedLeaves.get? slot = some d → d.finalTurnCount = some n ∧ d.finalized = true) ∧
    ∀ op : MakerOp, m'.Steady slot n op → op.admitted (op.apply m').2 ≠ some slot ∧
      (∀ generation, (op.apply m').1.connectionStates.get? slot = some (.up generation) →
        m'.connectionStates.get? slot = some (.up generation)) ∧
      (m'.Askable slot epoch → ∀ outcome, op.answer slot epoch (op.apply m').2 = some outcome → outcome = .finalized n) := by
  intro m'
  have hsealed : m'.Sealed slot epoch n := hcall.sealed.run hrun
  refine ⟨fun d hd => ?_, fun op hop => ⟨hsealed.not_admitted hop, (hsealed.apply hop).2,
    fun hask outcome => hsealed.answer hop hask⟩⟩
  obtain hheld | ⟨d', hd', hcarries⟩ := hsealed
  · exact absurd (hheld.undecided.symm.trans (leaveDecided_of_some hd)) (by decide)
  · cases hd.symm.trans hd'
    exact hcarries

/-- A home's maker once the link of slot 3 in its generation 7 has dropped, with turns forwarded. -/
def droppedAtHome : DecisionMaker :=
  (create ⟨1, 8⟩ .selfRelay ∅ true false).after
    [.setHomedSlots {3}, .noteSlotStarted 3, .activateConnectionEpoch 3 7, .noteHomeTurnForwarded 3,
      .recordDepartureForEpoch 3 {} leaveReasonDropped (some 7)]

/-- The gate proves the same count again: a reconnect is refused, and the leave carries the count. -/
theorem sealed_drop_stays_sealed_asked_twice :
    let request : MakerOp := .finalizeDrop 3 (some 7) (.count 5)
    let later : List MakerOp := [request, .resolveReconnectWith 3 (some 8) true, .decideLeave 3 leaveReasonDropped]
    ∃ d, ((request.apply droppedAtHome).1.after later).decidedLeaves.get? 3 = some d ∧
      d.finalTurnCount = some 5 ∧ d.finalized = true := by
  intro request later
  have hfirst : droppedAtHome.FirstAnswer 3 (some 7) 5 request := ⟨⟨rfl, rfl⟩, by decide +kernel, fun _ => by decide +kernel⟩
  have hrun : SteadyRun 3 5 (request.apply droppedAtHome).1 later := ⟨fun _ _ => rfl, trivial, fun _ _ _ => rfl, trivial⟩
  have hdecided : (((request.apply droppedAtHome).1.after later).decidedLeaves.get? 3).isSome := by decide +kernel
  obtain ⟨d, hd⟩ := isSome_iff_exists.mp hdecided
  exact ⟨d, hd, (sealed_drop_stays_sealed droppedAtHome 3 (some 7) 5 request later hfirst hrun).1 d hd⟩

/-- The gate has forgotten the slot when it is asked again: the request is refused, the seal is lifted,
    and the next generation of the slot comes up. -/
theorem repeated_finalize_lifts_the_seal :
    let sealed := (droppedAtHome.finalizeDrop 3 (some 7) (.count 5)).1
    let lifted := (sealed.finalizeDrop 3 (some 7) .neverForwarded).1
    let back := lifted.resolveReconnectWith 3 (some 8) true
    (droppedAtHome.departures.get? 3).bind (·.finalTurnCount) = none ∧
      (droppedAtHome.finalizeDrop 3 (some 7) (.count 5)).2 = .finalized 5 ∧
      (sealed.finalizeDrop 3 (some 7) .neverForwarded).2 = .rejectedNoCursor ∧
      back.2.admission = .admitted true ∧ back.1.connectionStates.get? 3 = some (.up 8) := by
  decide +kernel

end DecisionMaker

end RallyPoint.Relay
