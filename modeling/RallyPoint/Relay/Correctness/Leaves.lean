import RallyPoint.Relay.Correctness.MakerSteps

/-!
# `Relay.Correctness.Leaves` — a decided leave is terminal

A slot whose leave is decided stays departed: its directive is never replaced, its live state never comes
back, and no connection of it is admitted. Leave numbers only grow.

- `Buried`: decided slots are departed, and departed slots have no live state. Every change keeps it.
- `Step.leave_stays`, `Step.stays_down`: what no change does to a decided slot.
- `Ordered`: every number met so far is at most the counter, so the next one authored is above them all.
-/

namespace RallyPoint.Relay

open Lib Lib.Trace List MakerOp OrdMap

/-- A leave number, as the relay met it. -/
inductive LeaveNumber where
  | authored (seq : Nat)
  | observed (seq : Nat)

def LeaveNumber.seq : LeaveNumber → Nat
  | authored seq => seq
  | observed seq => seq

/-- The leave numbers of a call, in order. A directive with its slot out of range is ignored. -/
def leaveNumbers (call : MakerOp × MakerReply) : List LeaveNumber :=
  match call.1 with
  | .observeLeave leave => if (SlotId.ofWire leave.slot).isSome then [.observed leave.leaveSeq] else []
  | _ => call.2.authored.map fun directive => .authored directive.leaveSeq

/-- An authored number is above every number before it. -/
def LeaveNumber.Below (earlier later : LeaveNumber) : Prop := ∀ seq, later = .authored seq → earlier.seq < seq

/-- The slot a call admitted or reinstated. -/
def MakerOp.admitted : MakerOp → MakerReply → Option SlotId
  | activateConnectionEpoch slot _, .flag true => some slot
  | admitConnectionUp slot _, .flag true => some slot
  | resolveReconnectWith slot _ _, .transition ⟨.admitted _, _⟩ => some slot
  | reinstateSlot slot, .flag true => some slot
  | _, _ => none

namespace DecisionMaker

variable {m m' : DecisionMaker} {slot : SlotId} {es : List MakerEvent}

/-! ## Decided slots are departed -/

/-- Decided slots are departed, and departed slots are not live. -/
structure Buried (m : DecisionMaker) : Prop where
  decided : ∀ slot, m.leaveDecided slot = true → m.departed slot = true
  gone : ∀ slot, m.departed slot = true → m.slots.get? slot = none ∧ slot ∉ m.liveSlots

theorem create_buried (bounds : BufferBounds) (authority : Authority) (observers : Finset SlotId)
    (finalizedDrops rollback : Bool) : Buried (create bounds authority observers finalizedDrops rollback) :=
  ⟨nofun, nofun⟩

theorem departed_insert {departures : OrdMap SlotId Departure} {s : SlotId} (d : Departure) :
    ((departures.insert slot d).get? s).isSome = (decide (s = slot) || (departures.get? s).isSome) := by
  rw [get?_insert]
  by_cases h : s = slot <;> simp [h]

theorem leaveDecided_cacheLeave (m : DecisionMaker) (slot s : SlotId) (d : LeaveDirective) :
    (m.cacheLeave slot d).leaveDecided s = (decide (s = slot) || m.leaveDecided s) := by
  unfold leaveDecided cacheLeave
  dsimp only
  rw [get?_insert]
  by_cases h : s = slot <;> simp [h]

/-- A leave is cached for a slot that has departed. -/
theorem Buried.cacheLeave (h : m.Buried) (hd : m.departed slot = true) (directive : LeaveDirective) (n : Nat) :
    Buried ({ m with nextLeaveSeq := n }.cacheLeave slot directive) := by
  refine ⟨fun s hs => ?_, h.gone⟩
  rw [leaveDecided_cacheLeave, Bool.or_eq_true, decide_eq_true_eq] at hs
  obtain rfl | hs := hs
  · exact hd
  · exact h.decided s hs

variable {d : LeaveDirective} {e : List MakerEvent} {numbers : List LeaveNumber} {reason : Nat} {epoch : Nat}

theorem Step.buried (hstep : Step m e m') (h : m.Buried) : m'.Buried := by
  cases hstep with
  | touch slot state hd =>
    refine ⟨h.decided, fun s hs => ⟨?_, (h.gone s hs).2⟩⟩
    have hne : s ≠ slot := by
      rintro rfl
      exact absurd (hs.symm.trans hd) (by decide)
    show (m.slots.insert slot state).get? s = none
    rw [get?_insert, if_neg hne]
    exact (h.gone s hs).1
  | forget slot =>
    refine ⟨h.decided, fun s hs => ⟨?_, (h.gone s hs).2⟩⟩
    show (m.slots.erase slot).get? s = none
    rw [get?_erase, (h.gone s hs).1, ite_self]
  | present slot hd =>
    refine ⟨h.decided, fun s hs => ⟨(h.gone s hs).1, fun hin => ?_⟩⟩
    obtain rfl | hin := Finset.mem_insert.mp hin
    · exact absurd (hs.symm.trans hd) (by decide)
    · exact (h.gone s hs).2 hin
  | depart slot stamps reason epoch =>
    have hdep : ∀ s, (m.noteDeparture slot stamps reason epoch).departed s = (decide (s = slot) || m.departed s) :=
      fun s => departed_insert _
    refine ⟨fun s hs => ?_, fun s hs => ?_⟩
    · rw [hdep, h.decided s hs, Bool.or_true]
    · rw [hdep, Bool.or_eq_true, decide_eq_true_eq] at hs
      show (m.slots.erase slot).get? s = none ∧ s ∉ m.liveSlots.erase slot
      rw [get?_erase]
      obtain rfl | hs := hs
      · exact ⟨if_pos rfl, Finset.notMem_erase s _⟩
      · rw [(h.gone s hs).1, ite_self]
        exact ⟨rfl, fun hin => (h.gone s hs).2 (Finset.mem_of_mem_erase hin)⟩
  | commit _ _ _ _ hd | seed _ _ hd | adopt _ _ _ _ hd => exact h.cacheLeave hd _ _
  | reinstate slot departure hu hd =>
    -- the one change that ends a departure; its guard is that the leave is undecided
    have hdep : ∀ s, ((m.departures.erase slot).get? s).isSome = (!decide (s = slot) && m.departed s) := by
      intro s
      rw [get?_erase, departed]
      by_cases heq : s = slot <;> simp [heq]
    refine ⟨fun s hs => ?_, fun s hs => ?_⟩
    · have hne : s ≠ slot := by
        rintro rfl
        exact absurd (hs.symm.trans hu) (by decide)
      show ((m.departures.erase slot).get? s).isSome = true
      rw [hdep, decide_eq_false hne]
      exact h.decided s hs
    · have hs' : ((m.departures.erase slot).get? s).isSome = true := hs
      rw [hdep, Bool.and_eq_true, Bool.not_eq_true', decide_eq_false_iff_not] at hs'
      refine ⟨?_, (h.gone s hs'.2).2⟩
      show (m.slots.insert slot _).get? s = none
      rw [get?_insert, if_neg hs'.1]
      exact (h.gone s hs'.2).1
  | _ => exact ⟨h.decided, h.gone⟩

/-! ## What no change does to a decided slot -/

/-- **A decided leave is never replaced.** -/
theorem Step.leave_stays (hstep : Step m e m')
    (hd : m.decidedLeaves.get? slot = some d) : m'.decidedLeaves.get? slot = some d := by
  have hdecided := leaveDecided_of_some hd
  have hcache : ∀ (s : SlotId) (directive : LeaveDirective), m.leaveDecided s = false →
      (m.decidedLeaves.insert s directive).get? slot = some d := by
    intro s directive hu
    have hne : slot ≠ s := by
      rintro rfl
      exact absurd (hdecided.symm.trans hu) (by decide)
    rw [get?_insert, if_neg hne]
    exact hd
  cases hstep with
  | commit s _ _ hu | adopt s _ _ hu => exact hcache s _ hu
  | seed d' hu => exact hcache d'.slot _ hu
  | _ => exact hd

/-- No connection of a departed or decided slot comes up. -/
theorem Step.stays_down (hstep : Step m e m')
    (hclosed : m.departed slot = true ∨ m.leaveDecided slot = true)
    (hup : m'.connectionStates.get? slot = some (.up epoch)) : m.connectionStates.get? slot = some (.up epoch) := by
  cases hstep with
  | up s n hd hu =>
    have hne : slot ≠ s := by
      rintro rfl
      simp [hd, hu] at hclosed
    have hup' : (m.connectionStates.insert s (.up n)).get? slot = some (.up epoch) := hup
    rw [get?_insert, if_neg hne] at hup'
    exact hup'
  | down s n =>
    have hup' : (m.connectionStates.insert s (.down n)).get? slot = some (.up epoch) := hup
    rw [get?_insert] at hup'
    split at hup'
    · cases hup'
    · exact hup'
  | _ => exact hup

/-! ## Calls on a decided slot are refused -/

section Refused

variable (hclosed : m.departed slot = true ∨ m.leaveDecided slot = true)

include hclosed

theorem activateConnectionEpoch_refused (epoch : Nat) : (m.activateConnectionEpoch slot epoch).2 = false := by
  unfold activateConnectionEpoch
  rw [if_pos hclosed]

theorem admitConnectionUp_refused (observed : Option Nat) : (m.admitConnectionUp slot observed).2 = false := by
  unfold admitConnectionUp
  rw [if_pos hclosed]

/-- A departed slot is admitted only by a reconnect, or reinstated outright. -/
theorem not_admitted_of_refused (op : MakerOp)
    (hresolve : ∀ observed hold, (m.resolveReconnectWith slot observed hold).2.admission = .rejected)
    (hreinstate : op = .reinstateSlot slot → (m.reinstateSlot slot).2 = false) : op.admitted (op.apply m).2 ≠ some slot := by
  intro hadmitted
  cases op with
  | activateConnectionEpoch s epoch =>
    simp only [apply, Prod.map, admitted] at hadmitted
    have hrefused : (m.activateConnectionEpoch slot epoch).2 = false := activateConnectionEpoch_refused hclosed epoch
    split at hadmitted <;> simp_all
  | admitConnectionUp s observed =>
    simp only [apply, Prod.map, admitted] at hadmitted
    have hrefused : (m.admitConnectionUp slot observed).2 = false := admitConnectionUp_refused hclosed observed
    split at hadmitted <;> simp_all
  | resolveReconnectWith s observed hold =>
    simp only [apply, Prod.map, admitted] at hadmitted
    have hrefused := hresolve observed hold
    split at hadmitted <;> simp_all
  | reinstateSlot s =>
    simp only [apply, Prod.map, admitted] at hadmitted
    split at hadmitted <;> simp_all
  | _ => simp [admitted] at hadmitted

end Refused

theorem resolveReconnectWith_refused (hdecided : m.leaveDecided slot = true) (observed : Option Nat) (hold : Bool) :
    (m.resolveReconnectWith slot observed hold).2.admission = .rejected := by
  unfold resolveReconnectWith
  rw [if_pos hdecided]

theorem reinstateSlot_refused (hdecided : m.leaveDecided slot = true) : (m.reinstateSlot slot).2 = false := by
  unfold reinstateSlot
  rw [if_pos hdecided]

/-- **No call admits or reinstates a decided slot.** -/
theorem not_admitted (hdecided : m.leaveDecided slot = true) (op : MakerOp) : op.admitted (op.apply m).2 ≠ some slot :=
  not_admitted_of_refused (.inr hdecided) op (resolveReconnectWith_refused hdecided) fun _ => reinstateSlot_refused hdecided

/-! ## The leaves a call authors -/

theorem commitLeave_authored (h : (m.commitLeave slot reason).2 = some d) : d.slot = slot.toWire ∧ d.reason = reason := by
  unfold commitLeave at h
  split at h
  · cases h
  · split at h
    · cases h
    · cases h
      exact ⟨rfl, rfl⟩

theorem decideLeave_authored (h : (m.decideLeave slot reason).2 = some d) :
    m.authority = .selfRelay ∧ d.slot = slot.toWire ∧ d.reason = reason := by
  unfold decideLeave at h
  dsimp only at h
  split at h
  · cases h
  · rename_i hauthority
    exact ⟨not_not.mp hauthority, commitLeave_authored h⟩

theorem forceDecideLeave_authored (h : (m.forceDecideLeave slot reason).2 = some d) :
    d.slot = slot.toWire ∧ d.reason = reason := by
  unfold forceDecideLeave at h
  dsimp only at h
  split at h
  · rename_i heq
    cases h
    exact commitLeave_authored (congrArg Prod.snd heq)
  · split at h
    · cases h
    · cases h
      exact ⟨rfl, rfl⟩

/-- What a fold of calls authored comes from one of the calls each. `P` is what the calls keep. -/
theorem mem_foldl_authored {α : Type} {P : DecisionMaker → Prop} {Q : α → LeaveDirective → Prop}
    (f : DecisionMaker → α → DecisionMaker × Option LeaveDirective) (hP : ∀ m a, P m → P (f m a).1)
    (hQ : ∀ m a d, P m → (f m a).2 = some d → Q a d) (l : List α) (acc : List LeaveDirective) (h : P m) :
    ∀ d ∈ (l.foldl (fun (p : DecisionMaker × List LeaveDirective) a => ((f p.1 a).1, p.2 ++ (f p.1 a).2.toList)) (m, acc)).2,
      d ∈ acc ∨ ∃ a ∈ l, Q a d := by
  induction l generalizing m acc with
  | nil => exact fun d hd => .inl hd
  | cons a l ih =>
    intro d hd
    obtain hd | ⟨b, hb, hq⟩ := ih (acc ++ (f m a).2.toList) (hP m a h) d hd
    · obtain hd | hd := mem_append.mp hd
      · exact .inl hd
      · exact .inr ⟨a, mem_cons_self, hQ m a d h (Option.mem_toList.mp hd)⟩
    · exact .inr ⟨b, mem_cons_of_mem a hb, hq⟩

/-- **What a promotion decides afresh**: undecided departures that are not held, for their recorded
    reasons. -/
theorem mem_setAuthority_fresh {authority : Authority} {held : Finset SlotId} {order : List SlotId}
    (hd : d ∈ (m.setAuthority authority held order).2.2) :
    m.authority = .peer ∧ authority = .selfRelay ∧ ∃ s record, m.departures.get? s = some record ∧ m.leaveDecided s = false ∧
      s ∉ held ∧ d.slot = s.toWire ∧ d.reason = record.reason := by
  unfold setAuthority at hd
  split at hd
  · cases hd
  · split at hd
    · rename_i hpromoted
      refine ⟨hpromoted.1, hpromoted.2, ?_⟩
      have hfold := mem_foldl_authored (P := fun _ => True)
        (Q := fun (a : SlotId × Nat) (d : LeaveDirective) => d.slot = a.1.toWire ∧ d.reason = a.2)
        (fun m a => m.decideLeave a.1 a.2) (fun _ _ _ => trivial) (fun _ _ _ _ h => (decideLeave_authored h).2) _ []
        trivial d hd
      obtain hnil | ⟨⟨s, reason⟩, hmem, hwire, hreason⟩ := hfold
      · cases hnil
      · obtain ⟨s', -, hderived⟩ := mem_filterMap.mp hmem
        split at hderived
        · rename_i record hrecord
          split at hderived
          · rename_i hopen
            cases hderived
            -- the new authority and the cleared counters are no part of what is decided
            have hundecided : m.leaveDecided s = false := by
              show (m.decidedLeaves.get? s).isSome = false
              simpa [leaveDecided] using hopen.1
            exact ⟨s, record, hrecord, hundecided, hopen.2, hwire, hreason⟩
          · cases hderived
        · cases hderived
    · cases hd

/-! ## Leave numbers -/

/-- The number in an event. -/
def numberOf : MakerEvent → Option LeaveNumber
  | .authored directive => some (.authored directive.leaveSeq)
  | .seeded directive => some (.authored directive.leaveSeq)
  | .heard leave => some (.observed leave.leaveSeq)
  | _ => none

/-- The counter is at least every number met, and each authored number is above those before it. -/
structure Ordered (m : DecisionMaker) (numbers : List LeaveNumber) : Prop where
  bounded : ∀ n ∈ numbers, n.seq ≤ m.nextLeaveSeq
  ordered : numbers.Pairwise LeaveNumber.Below

theorem Ordered.mono (h : m.Ordered numbers) (hle : m.nextLeaveSeq ≤ m'.nextLeaveSeq) : m'.Ordered numbers :=
  ⟨fun n hn => (h.bounded n hn).trans hle, h.ordered⟩

theorem Ordered.concat {n : LeaveNumber} (h : m.Ordered numbers)
    (hle : m.nextLeaveSeq ≤ m'.nextLeaveSeq) (hn : n.seq ≤ m'.nextLeaveSeq)
    (habove : ∀ seq, n = .authored seq → m.nextLeaveSeq < seq) : m'.Ordered (numbers ++ [n]) := by
  constructor
  · intro k hk
    obtain hk | hk := mem_append.mp hk
    · exact (h.bounded k hk).trans hle
    · cases mem_singleton.mp hk
      exact hn
  · rw [pairwise_append]
    refine ⟨h.ordered, pairwise_singleton _ _, ?_⟩
    rintro a ha b hb seq heq
    cases mem_singleton.mp hb
    exact (h.bounded a ha).trans_lt (habove seq heq)

theorem Step.ordered (hstep : Step m e m') (h : m.Ordered numbers) : m'.Ordered (numbers ++ e.filterMap numberOf) := by
  have hsame : ∀ m' : DecisionMaker, m'.nextLeaveSeq = m.nextLeaveSeq → m'.Ordered (numbers ++ []) := by
    intro m' heq
    rw [append_nil]
    exact h.mono heq.ge
  have hauthored : ∀ (m' : DecisionMaker) (d : LeaveDirective), m'.nextLeaveSeq = m.nextLeaveSeq + 1 →
      m'.Ordered (numbers ++ [.authored (m.numbered d).leaveSeq]) := by
    intro m' d heq
    refine h.concat (heq ▸ Nat.le_succ _) heq.ge ?_
    rintro seq ⟨⟩
    exact Nat.lt_succ_self _
  have hheard : ∀ (m' : DecisionMaker) (seq : Nat), m'.nextLeaveSeq = max m.nextLeaveSeq seq →
    m'.Ordered (numbers ++ [.observed seq]) :=
    fun m' seq heq => h.concat (heq ▸ le_max_left _ _) (heq ▸ le_max_right _ _) nofun
  cases hstep with
  | commit | seed => exact hauthored _ _ rfl
  | adopt => exact hheard _ _ (by rw [normalizeObservedLeave_leaveSeq]; rfl)
  | hear => exact hheard _ _ rfl
  | _ => exact hsame _ rfl

/-- The numbers of a call are those of its events. -/
theorem numbers_of_events (op : MakerOp) : (op.events m (op.apply m).2).filterMap numberOf = leaveNumbers
    (op, (op.apply m).2) := by
  have hhands : ∀ l : List Authority, (l.map MakerEvent.handover).filterMap numberOf = [] := by
    intro l
    rw [filterMap_map]
    exact filterMap_eq_nil_iff.mpr fun _ _ => rfl
  have hauthored : ∀ ev : LeaveDirective → MakerEvent, (∀ d, numberOf (ev d) = some (.authored d.leaveSeq)) →
      ∀ l : List LeaveDirective, (l.map ev).filterMap numberOf = l.map fun d => .authored d.leaveSeq := by
    intro ev hev l
    rw [filterMap_map, ← filterMap_eq_map]
    exact filterMap_congr fun d _ => hev d
  cases op with
  | observeSync => rfl
  | seedResumed => exact hauthored .seeded (fun _ => rfl) _
  | observeLeave leave =>
    simp only [events, leaveNumbers]
    split
    · show [LeaveNumber.observed _] = _
      rw [normalizeObservedLeave_leaveSeq]
    · rfl
  | resolveReconnectWith | reinstateSlot | finishFinalize | finalizeDrop =>
    simp only [events]
    split <;> rfl
  | _ =>
    simp only [events, leaveNumbers, filterMap_append, hhands, hauthored .authored (fun _ => rfl), nil_append]

/-! ## Whole runs -/

/-- A decided slot after any further calls. -/
theorem decided_after (h : m.Buried) (hd : m.decidedLeaves.get? slot = some d) (ops : List MakerOp) :
    (m.after ops).Buried ∧ (m.after ops).decidedLeaves.get? slot = some d :=
  ⟨after_keeps (fun _ _ _ hs hb => hs.buried hb) h ops,
    after_keeps (I := fun m => m.decidedLeaves.get? slot = some d) (fun _ _ _ hs hd => hs.leave_stays hd) hd ops⟩

/-- No call brings a connection of a decided slot up. -/
theorem apply_stays_down (hd : m.decidedLeaves.get? slot = some d) (op : MakerOp)
    (hup : (op.apply m).1.connectionStates.get? slot = some (.up epoch)) :
    m.connectionStates.get? slot = some (.up epoch) := by
  have hsteps : Steps Step m (op.events m (op.apply m).2) (op.apply m).1 := apply_steps op
  have hkept := hsteps.keeps (I := fun m' _ => m'.decidedLeaves.get? slot = some d ∧
      (m'.connectionStates.get? slot = some (.up epoch) → m.connectionStates.get? slot = some (.up epoch)))
    (fun m₁ _ e m₂ hs h₁ => ⟨hs.leave_stays h₁.1, fun h₂ => h₁.2 (hs.stays_down (.inr (leaveDecided_of_some h₁.1)) h₂)⟩)
    [] ⟨hd, id⟩
  exact hkept.2 hup

/-- The numbers of a run are ordered. -/
theorem log_ordered (h : m.Ordered []) (ops : List MakerOp) : (m.after ops).Ordered ((m.log ops).flatMap leaveNumbers) := by
  refine run_invariant (I := fun (m : DecisionMaker) log => m.Ordered (log.flatMap leaveNumbers)) ops h ?_
  intro m log op _ hm
  have hsteps : Steps Step m (op.events m (op.apply m).2) (op.apply m).1 := apply_steps op
  have hkept := hsteps.keeps (I := fun m' es =>
    m'.Ordered (log.flatMap leaveNumbers ++ es.filterMap numberOf)) (fun m₁ es e m₂ hs h₁ => by
      rw [filterMap_append, ← append_assoc]
      exact hs.ordered h₁) [] (by rw [filterMap_nil, append_nil]; exact hm)
  rw [nil_append, numbers_of_events] at hkept
  rw [flatMap_append, flatMap_singleton]
  exact hkept

/-- **A decided leave is terminal and immutable.** Once a directive is cached for a slot, then after any
    further calls it is the same one, the slot is departed and neither has live state nor counts as live,
    no call admits or reinstates it and none brings a connection of it up. Over the whole run every
    authored number is above every number before it. -/
theorem decided_leave_is_terminal (bounds : BufferBounds) (authority : Authority) (observers : Finset SlotId)
    (finalizedDrops rollback : Bool) (earlier later : List MakerOp) :
    let start := create bounds authority observers finalizedDrops rollback
    let m := start.after (earlier ++ later)
    (∀ slot d, (start.after earlier).decidedLeaves.get? slot = some d →
      (m.decidedLeaves.get? slot = some d ∧ m.departed slot = true ∧ m.slots.get? slot = none ∧ slot ∉ m.liveSlots) ∧
      ∀ op : MakerOp, op.admitted (op.apply m).2 ≠ some slot ∧ ∀ epoch,
        (op.apply m).1.connectionStates.get? slot = some (.up epoch) →
          m.connectionStates.get? slot = some (.up epoch)) ∧
    ((start.log (earlier ++ later)).flatMap leaveNumbers).Pairwise LeaveNumber.Below := by
  intro start m
  refine ⟨fun slot d hdecided => ?_, (log_ordered ⟨nofun, .nil⟩ (earlier ++ later)).ordered⟩
  have hburied := after_keeps (fun _ _ _ hs hb => hs.buried hb)
    (create_buried bounds authority observers finalizedDrops rollback) earlier
  obtain ⟨hb, hd⟩ := decided_after hburied hdecided later
  rw [← after_append] at hb hd
  have hleft : m.leaveDecided slot = true := leaveDecided_of_some hd
  have hdeparted := hb.decided slot hleft
  exact ⟨⟨hd, hdeparted, hb.gone slot hdeparted⟩, fun op => ⟨not_admitted hleft op, fun _ hup => apply_stays_down hd op hup⟩⟩

/-- A slot is dropped and decided, and then comes back: its leave stands. -/
theorem decided_leave_is_terminal_reconnect :
    let start := create ⟨1, 8⟩ .selfRelay ∅ false false
    let ops : List MakerOp := [.forceDecideLeave 3 leaveReasonDropped]
    let back : List MakerOp := [.noteSlotPresent 3, .observeTurnFrame 3 0 5, .resolveReconnectWith 3 (some 7) true]
    let leave : LeaveDirective := ⟨3, leaveReasonDropped, 0, 1, none, false⟩
    (start.after ops).decidedLeaves.get? 3 = some leave ∧ (start.after (ops ++ back)).decidedLeaves.get? 3 = some leave ∧
      (start.after (ops ++ back)).slots.get? 3 = none ∧ 3 ∉ (start.after (ops ++ back)).liveSlots := by
  intro start ops back leave
  have hdecided : (start.after ops).decidedLeaves.get? 3 = some leave := by decide +kernel
  have hterminal := (decided_leave_is_terminal ⟨1, 8⟩ .selfRelay ∅ false false ops back).1 3 leave hdecided
  exact ⟨hdecided, hterminal.1.1, hterminal.1.2.2⟩

/-- A directive whose slot is out of range is ignored: its number is not folded into the counter, and a
    leave authored next has a smaller one. -/
theorem ignored_leave_number_is_not_folded :
    let stray : LeaveDirective := ⟨256, leaveReasonLeft, 0, 5, none, false⟩
    let ops : List MakerOp := [.observeLeave stray, .forceDecideLeave 3 leaveReasonLeft]
    ((create ⟨1, 8⟩ .selfRelay ∅ false false).log ops).map (fun call => call.2.authored.map (·.leaveSeq)) = [[], [1]] ∧
      ¬ stray.leaveSeq < 1 := by
  decide +kernel

end DecisionMaker

end RallyPoint.Relay
