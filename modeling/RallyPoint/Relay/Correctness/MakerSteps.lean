import RallyPoint.Relay.Maker.Run

/-!
# `Relay.Correctness.MakerSteps` — what a call on the maker can do

Every call is a sequence of a few small changes, each behind the guard the code checks before it makes
it. `Step` lists the changes; `apply_steps` says that every call is made of them. A property of whole
runs is then proved once for each change, and a new call needs only its own decomposition.
-/

namespace RallyPoint.Relay

open Lib Lib.Trace

/-- What a change emits. -/
inductive MakerEvent where
  /-- The relay decided a leave. -/
  | authored (directive : LeaveDirective)
  /-- The relay authored the leave of a departure it was seeded with. -/
  | seeded (directive : LeaveDirective)
  /-- The relay was told of a leave. -/
  | heard (leave : LeaveDirective)
  /-- A departure was discarded and its slot restored. -/
  | reinstated (slot : SlotId)
  /-- The seal on a slot's drop was lifted. -/
  | unsealed (slot : SlotId)
  /-- A checksum was ordered and compared. -/
  | compared
  /-- The authority changed. -/
  | handover (authority : Authority)

/-- The authority a call hands the session to. -/
def MakerOp.handsTo : MakerOp → Option Authority
  | setAuthority authority .. => some authority
  | syncDescriptor _ authority .. => some authority
  | _ => none

/-- A promotion: the relay was a peer, and is given the authority. -/
def MakerOp.promotes (m : DecisionMaker) (op : MakerOp) : Prop := m.authority = .peer ∧ op.handsTo = some .selfRelay

/-- The reply of a call that restored the slot it was about. -/
def MakerReply.reinstates : MakerReply → Bool
  | flag accepted => accepted
  | transition ⟨.admitted restored, _⟩ => restored
  | _ => false

/-- The events of a call, from its arguments and its reply. -/
def MakerOp.events (m : DecisionMaker) (op : MakerOp) (reply : MakerReply) : List MakerEvent :=
  match op with
  | observeSync .. => [.compared]
  | observeLeave leave =>
    if (SlotId.ofWire leave.slot).isSome then [.heard (normalizeObservedLeave leave m.finalizedDropsEnabled)] else []
  | seedResumed _ => reply.authored.map .seeded
  | resolveReconnectWith slot _ _ => if reply.reinstates then [.reinstated slot] else []
  | reinstateSlot slot => if reply.reinstates then [.reinstated slot] else []
  | finishFinalize slot reading => if m.provenCount slot reading = none then [.unsealed slot] else []
  | finalizeDrop slot epoch reading =>
    if (m.sealForFinalize slot epoch).2 = none ∧ m.provenCount slot reading = none then [.unsealed slot] else []
  | op =>
    (op.handsTo.filter (m.authority ≠ ·)).toList.map .handover ++ reply.authored.map .authored

variable (leave : LeaveDirective)

@[simp] theorem normalizeObservedLeave_slot (enabled : Bool) :
    (normalizeObservedLeave leave enabled).slot = leave.slot := by
  unfold normalizeObservedLeave; split <;> rfl

@[simp] theorem normalizeObservedLeave_leaveSeq (enabled : Bool) :
    (normalizeObservedLeave leave enabled).leaveSeq = leave.leaveSeq := by
  unfold normalizeObservedLeave; split <;> rfl

namespace DecisionMaker

/-- The leave `directive` as it is authored from `m`. -/
def numbered (m : DecisionMaker) (directive : LeaveDirective) : LeaveDirective :=
  { directive with leaveSeq := m.nextLeaveSeq + 1 }

/-- The epochs retired for the slot once its current generation is replaced. -/
def retiredAfter (m : DecisionMaker) (slot : SlotId) : Finset Nat :=
  match m.connectionStates.get? slot with
  | some superseded => insert superseded.epoch (m.retiredConnectionEpochs slot)
  | none => m.retiredConnectionEpochs slot

/-- **One change of a maker**, with the guard it is made behind. -/
inductive Step : DecisionMaker → List MakerEvent → DecisionMaker → Prop where
  /-- The session's shape, what it has started, forwarded and evicted, and the results it holds. -/
  | shape (m : DecisionMaker) (bounds : BufferBounds) (results : OrdMap SlotId ResultEcho)
      (expectedSlots homedSlots : Finset SlotId) (started : Bool)
      (startedSlots peerStartedSlots forwardedSlots : Finset SlotId)
      (evictions : OrdMap SlotId EvictionCause) (rehomedHomes : Finset SlotId) :
      Step m [] { m with
        bounds, results, expectedSlots, homedSlots, started, startedSlots, peerStartedSlots,
        forwardedSlots, evictions, rehomedHomes }
  | setObservers (m : DecisionMaker) (observers : Finset SlotId) : Step m [] (m.setObservers observers)
  | compare (m : DecisionMaker) (sync : SyncTracker) (syncTurns : SyncTurns) : Step m [.compared] { m with sync, syncTurns }
  /-- A promotion starts the comparator afresh. -/
  | handover (m : DecisionMaker) (authority : Authority) (h : m.authority ≠ authority) :
      Step m [.handover authority] { m with authority, sync := if authority = .selfRelay then .empty else m.sync }
  | resume (m : DecisionMaker) : Step m [] { m with started := true, resumed := true }
  | touch (m : DecisionMaker) (slot : SlotId) (state : SlotState) (hd : m.departed slot = false) :
      Step m [] { m with slots := m.slots.insert slot state }
  | forget (m : DecisionMaker) (slot : SlotId) : Step m [] (m.removeSlot slot)
  | present (m : DecisionMaker) (slot : SlotId) (hd : m.departed slot = false) (hu : m.leaveDecided slot = false) :
      Step m [] { m with liveSlots := insert slot m.liveSlots }
  | up (m : DecisionMaker) (slot : SlotId) (epoch : Nat) (hd : m.departed slot = false) (hu : m.leaveDecided slot = false)
      (hr : epoch ∉ m.retiredConnectionEpochs slot)
      (hc : ∀ state, m.connectionStates.get? slot = some state → state.epoch ≠ epoch) :
      Step m [] { m with
        retiredConnectionEpochs := Function.update m.retiredConnectionEpochs slot (m.retiredAfter slot)
        connectionStates := m.connectionStates.insert slot (.up epoch) }
  | down (m : DecisionMaker) (slot : SlotId) (epoch : Nat)
      (hc : m.connectionStates.get? slot = none ∨ m.connectionStates.get? slot = some (.up epoch)) :
      Step m [] { m with connectionStates := m.connectionStates.insert slot (.down epoch) }
  | depart (m : DecisionMaker) (slot : SlotId) (stamps : DepartureStamps) (reason : Nat) (epoch : Option Nat) :
      Step m [] (m.noteDeparture slot stamps reason epoch)
  | commit (m : DecisionMaker) (slot : SlotId) (reason frame : Nat) (hu : m.leaveDecided slot = false)
      (hd : m.departed slot = true) :
      Step m [.authored (m.numbered (m.recordedLeave slot reason frame))]
        (m.authorLeave slot (m.recordedLeave slot reason frame)).1
  | seed (m : DecisionMaker) (d : DepartedSlot) (hu : m.leaveDecided d.slot = false) (hd : m.departed d.slot = true) :
      Step m [.seeded (m.numbered (m.seededLeave d))] (m.authorLeave d.slot (m.seededLeave d)).1
  | adopt (m : DecisionMaker) (slot : SlotId) (leave : LeaveDirective) (hs : SlotId.ofWire leave.slot = some slot)
      (hu : m.leaveDecided slot = false) (hd : m.departed slot = true) :
      Step m [.heard (normalizeObservedLeave leave m.finalizedDropsEnabled)]
        ({ m with nextLeaveSeq := max m.nextLeaveSeq leave.leaveSeq }.cacheLeave slot
          (normalizeObservedLeave leave m.finalizedDropsEnabled))
  | hear (m : DecisionMaker) (leave : LeaveDirective) :
      Step m [.heard leave] { m with nextLeaveSeq := max m.nextLeaveSeq leave.leaveSeq }
  | reinstate (m : DecisionMaker) (slot : SlotId) (departure : Departure) (hu : m.leaveDecided slot = false)
      (hd : m.departures.get? slot = some departure) :
      Step m [.reinstated slot] { m with
        departures := m.departures.erase slot
        slots := m.slots.insert slot ((departure.slotState.getD .empty).raise departure.lastFrame) }
  | lock (m : DecisionMaker) (slot : SlotId) : Step m [] { m with finalizingDrops := insert slot m.finalizingDrops }
  | unlock (m : DecisionMaker) (slot : SlotId) :
      Step m [.unsealed slot] { m with finalizingDrops := m.finalizingDrops.erase slot }

variable {m : DecisionMaker} {slot : SlotId}

/-! ## Frames, conditions and connections -/

theorem observeFrame_steps (frame : Nat) : Steps Step m [] (m.observeFrame slot frame) := by
  unfold observeFrame
  split
  · exact .refl m
  · rename_i hd
    exact .single (.touch m slot _ (by simpa using hd))

theorem observeTurnFrame_steps (seq frame : Nat) : Steps Step m [] (m.observeTurnFrame slot seq frame).1 := by
  unfold observeTurnFrame
  split
  · exact .refl m
  · rename_i hd
    exact .single (.touch m slot _ (by simpa using hd))

theorem activateConnectionEpoch_steps (epoch : Nat) : Steps Step m [] (m.activateConnectionEpoch slot epoch).1 := by
  unfold activateConnectionEpoch
  split
  · exact .refl m
  · rename_i hopen
    rw [not_or, Bool.not_eq_true, Bool.not_eq_true] at hopen
    split
    · exact .refl m
    · rename_i hretired
      split
      · exact .refl m
      · rename_i hup
        split
        · exact .refl m
        · rename_i hdown
          refine .single (.up m slot epoch hopen.1 hopen.2 hretired ?_)
          intro state hstate heq
          cases state with
          | up e => exact hup (by rw [hstate, ← heq]; rfl)
          | down e => exact hdown (by rw [hstate, ← heq]; rfl)

variable (observed : Option Nat) (stamps : DepartureStamps) (reason : Nat)

theorem admitConnectionUp_steps : Steps Step m [] (m.admitConnectionUp slot observed).1 := by
  unfold admitConnectionUp
  split
  · exact .refl m
  · split
    · exact activateConnectionEpoch_steps _
    · exact .refl m

/-- Admitting a generation touches no departure, no leave and no slot state. -/
theorem admitConnectionUp_keeps :
    (m.admitConnectionUp slot observed).1.departures = m.departures ∧
    (m.admitConnectionUp slot observed).1.decidedLeaves = m.decidedLeaves ∧
    (m.admitConnectionUp slot observed).1.slots = m.slots := by
  unfold admitConnectionUp
  split
  · exact ⟨rfl, rfl, rfl⟩
  · split
    · unfold activateConnectionEpoch
      repeat' split
      all_goals exact ⟨rfl, rfl, rfl⟩
    · exact ⟨rfl, rfl, rfl⟩

theorem reinstateSlot_steps : Steps Step m (if (m.reinstateSlot slot).2 then [.reinstated slot] else [])
    (m.reinstateSlot slot).1 := by
  unfold reinstateSlot
  split
  · exact .refl m
  · rename_i hu
    split
    · exact .refl m
    · rename_i departure hd
      exact .single (.reinstate m slot departure (by simpa using hu) hd)

/-- What restoring an undecided departed slot leaves behind. -/
theorem reinstateSlot_restores (hu : m.leaveDecided slot = false) (hd : m.departed slot = true) :
    (m.reinstateSlot slot).2 = true ∧ (m.reinstateSlot slot).1.departed slot = false := by
  obtain ⟨departure, hrecord⟩ := Option.isSome_iff_exists.mp hd
  unfold reinstateSlot
  rw [hu, hrecord]
  refine ⟨rfl, ?_⟩
  show ((m.departures.erase slot).get? slot).isSome = false
  rw [OrdMap.get?_erase, if_pos rfl]
  rfl

theorem reinstateSlot_frame :
    (m.reinstateSlot slot).1.leaveDecided slot = m.leaveDecided slot ∧
      (m.reinstateSlot slot).1.connectionStates = m.connectionStates ∧
      (m.reinstateSlot slot).1.retiredConnectionEpochs = m.retiredConnectionEpochs := by
  unfold reinstateSlot
  split
  · exact ⟨rfl, rfl, rfl⟩
  · split <;> exact ⟨rfl, rfl, rfl⟩

/-- A generation the activation does not reject is admitted, once no departure stands in its way. -/
theorem admitConnectionUp_of_activation {m' : DecisionMaker} {observed : Option Nat}
    (hact : m.connectionActivation slot observed ≠ .rejected) (hd : m'.departed slot = false)
    (hu : m'.leaveDecided slot = false) (hc : m'.connectionStates = m.connectionStates)
    (hr : m'.retiredConnectionEpochs = m.retiredConnectionEpochs) : (m'.admitConnectionUp slot observed).2 = true := by
  unfold connectionActivation at hact
  rw [← hc, ← hr] at hact
  unfold admitConnectionUp
  rw [if_neg (by simp [hd, hu])]
  cases observed with
  | none =>
    cases hstate : m'.connectionStates.get? slot with
    | none => rfl
    | some state => simp [hstate] at hact
  | some epoch =>
    show (m'.activateConnectionEpoch slot epoch).2 = true
    unfold activateConnectionEpoch
    rw [if_neg (by simp [hd, hu])]
    have hopen : epoch ∉ m'.retiredConnectionEpochs slot := fun hin => by simp [hin] at hact
    have hdown : m'.connectionStates.get? slot ≠ some (.down epoch) := fun hstate => by simp [hstate] at hact
    rw [if_neg hopen]
    split <;> rfl

/-- The maker with an undecided departure of the slot discarded, if there is one. -/
def restoredFor (m : DecisionMaker) (slot : SlotId) : DecisionMaker :=
  if m.departed slot then (m.reinstateSlot slot).1 else m

/-- **A reconnect is rejected and changes nothing, or restores the slot and admits the generation**: a
    hold is taken with a decided leave or the admission, and a departed slot is admitted only with one. -/
theorem resolveReconnectWith_cases (holdPending : Bool) :
    (m.resolveReconnectWith slot observed holdPending).1 = m ∧
      (m.resolveReconnectWith slot observed holdPending).2.admission = .rejected ∧
      ((m.resolveReconnectWith slot observed holdPending).2.consumeHold = true → m.leaveDecided slot = true) ∨
    m.leaveDecided slot = false ∧ (m.departed slot = true → holdPending = true) ∧
      (m.restoredFor slot).departed slot = false ∧
      ((m.restoredFor slot).admitConnectionUp slot observed).2 = true ∧
      m.resolveReconnectWith slot observed holdPending =
        (((m.restoredFor slot).admitConnectionUp slot observed).1, ⟨.admitted (m.departed slot), holdPending⟩) := by
  unfold resolveReconnectWith
  split
  · exact .inl ⟨rfl, rfl, fun _ => by assumption⟩
  rename_i hu
  rw [Bool.not_eq_true] at hu
  iterate 2
    split
    · exact .inl ⟨rfl, rfl, nofun⟩
  split
  · exact .inl ⟨rfl, rfl, nofun⟩
  rename_i hact
  split
  · exact .inl ⟨rfl, rfl, nofun⟩
  rename_i hheld
  -- a generation the activation does not reject is admitted
  right
  cases hd : m.departed slot with
  | true =>
    have hrestored : m.restoredFor slot = (m.reinstateSlot slot).1 := by simp [restoredFor, hd]
    obtain ⟨hdone, hback⟩ := reinstateSlot_restores hu hd
    obtain ⟨hu', hc, hr⟩ : (m.reinstateSlot slot).1.leaveDecided slot = m.leaveDecided slot ∧ _ := reinstateSlot_frame
    have hadmitted := admitConnectionUp_of_activation hact hback (hu'.trans hu) hc hr
    rw [hrestored]
    refine ⟨hu, fun _ => by simpa [hd] using hheld, hback, hadmitted, ?_⟩
    simp [hdone, hadmitted]
  | false =>
    have hrestored : m.restoredFor slot = m := by simp [restoredFor, hd]
    have hadmitted := admitConnectionUp_of_activation hact hd hu rfl rfl
    rw [hrestored]
    exact ⟨hu, nofun, hd, hadmitted, by simp [hadmitted]⟩

/-- A reconnect restores the slot exactly when it admits a departed one. -/
theorem resolveReconnectWith_steps (holdPending : Bool) :
    Steps Step m
      (if (MakerReply.transition (m.resolveReconnectWith slot observed holdPending).2).reinstates then
        [.reinstated slot] else [])
      (m.resolveReconnectWith slot observed holdPending).1 := by
  rcases resolveReconnectWith_cases (m := m) observed holdPending with ⟨hmaker, hrejected, -⟩ | ⟨hu, -, -, -, heq⟩
  · have hno : (MakerReply.transition (m.resolveReconnectWith slot observed holdPending).2).reinstates = false := by
      rcases htransition : (m.resolveReconnectWith slot observed holdPending).2 with ⟨admission, consume⟩
      rw [htransition] at hrejected
      cases hrejected
      rfl
    rw [hmaker, hno]
    exact .refl m
  · rw [heq]
    unfold restoredFor
    cases hd : m.departed slot with
    | true =>
      have hsteps : Steps Step m _ (m.reinstateSlot slot).1 := reinstateSlot_steps
      simp only [(reinstateSlot_restores hu hd).1, if_true] at hsteps
      simp only [MakerReply.reinstates, if_true]
      exact hsteps.trans (admitConnectionUp_steps observed)
    | false => exact admitConnectionUp_steps observed

theorem markConnectionDown_steps : Steps Step m [] (m.markConnectionDown slot observed).1 := by
  unfold markConnectionDown
  dsimp only
  split
  · exact .refl m
  · rename_i epoch hc
    exact .single (.down m slot epoch (.inl hc))
  · rename_i current epoch hc
    split
    · rename_i heq
      exact .single (.down m slot epoch (.inr (heq ▸ hc)))
    · exact .refl m
  · exact .refl m
  · exact .refl m

variable {epoch : Option Nat} {α : Type}

/-- A fold of calls that emit nothing. -/
theorem foldl_steps (f : DecisionMaker → α → DecisionMaker) (hf : ∀ m a, Steps Step m [] (f m a)) (l : List α) :
    Steps Step m [] (l.foldl f m) := by
  induction l generalizing m with
  | nil => exact .refl m
  | cons a l ih => exact (hf m a).trans ih

theorem activateLocalEpochs_steps (conditions : List SlotConditions) :
    Steps Step m [] (m.activateLocalEpochs conditions) := by
  refine foldl_steps _ (fun m c => ?_) conditions
  split
  · split
    · exact activateConnectionEpoch_steps _
    · exact .refl m
  · exact .refl m

theorem ingestSlots_steps (conditions : List SlotConditions) : Steps Step m [] (m.ingestSlots conditions) := by
  refine foldl_steps _ (fun m c => ?_) conditions
  split
  · split
    · exact .refl m
    · rename_i slot _ hopen
      rw [not_or] at hopen
      exact .single (.touch m slot _ (by simpa using hopen.1))
  · exact .refl m

/-! ## Departures and leaves -/

theorem leaveDecided_of_some {directive : LeaveDirective} (h : m.decidedLeaves.get? slot = some directive) :
    m.leaveDecided slot = true := by
  rw [leaveDecided, h]
  rfl

theorem leaveDecided_of_none (h : m.decidedLeaves.get? slot = none) : m.leaveDecided slot = false := by
  rw [leaveDecided, h]
  rfl

@[simp] theorem leaveDecided_noteDeparture (reason : Nat) (epoch : Option Nat) (s : SlotId) :
    (m.noteDeparture slot stamps reason epoch).leaveDecided s = m.leaveDecided s := rfl

@[simp] theorem departed_noteDeparture (reason : Nat) (epoch : Option Nat) :
    (m.noteDeparture slot stamps reason epoch).departed slot = true := by
  unfold departed noteDeparture
  dsimp only
  rw [OrdMap.get?_insert, if_pos rfl]
  rfl

theorem recordDepartureForEpoch_steps (reason : Nat) (epoch : Option Nat) :
    Steps Step m [] (m.recordDepartureForEpoch slot stamps reason epoch).1 := by
  have hdown : Steps Step m [] (m.markConnectionDown slot epoch).1 := markConnectionDown_steps epoch
  unfold recordDepartureForEpoch
  split
  · rename_i m' heq
    rw [heq] at hdown
    exact hdown.trans (.single (.depart m' slot stamps reason epoch))
  · rename_i m' heq
    rw [heq] at hdown
    exact hdown

/-- The leaves a call authored, as events. -/
abbrev authoredEvents (directives : List LeaveDirective) : List MakerEvent := directives.map .authored

theorem commitLeave_steps (hd : m.departed slot = true) :
    Steps Step m (authoredEvents (m.commitLeave slot reason).2.toList) (m.commitLeave slot reason).1 := by
  unfold commitLeave
  split
  · exact .refl m
  · rename_i hu
    split
    · exact .refl m
    · exact .single (.commit m slot reason _ (by simpa using hu) hd)

theorem decideLeave_steps :
    Steps Step m (authoredEvents (m.decideLeave slot reason).2.toList) (m.decideLeave slot reason).1 := by
  unfold decideLeave
  dsimp only
  split
  · exact .single (.depart m slot {} reason none)
  · exact .silent (.depart m slot {} reason none) (commitLeave_steps reason (departed_noteDeparture _ _ _))

theorem commitLeave_none {reason : Nat} (h : (m.commitLeave slot reason).2 = none) : (m.commitLeave slot reason).1 = m := by
  unfold commitLeave at h ⊢
  split
  · rfl
  · rename_i hu
    rw [if_neg hu] at h
    split
    · rfl
    · rename_i hframe
      rw [hframe] at h
      cases h

theorem forceDecideLeave_steps :
    Steps Step m (authoredEvents (m.forceDecideLeave slot reason).2.toList) (m.forceDecideLeave slot reason).1 := by
  unfold forceDecideLeave
  refine .silent (.depart m slot {} reason none) ?_
  have hgone : (m.noteDeparture slot {} reason none).departed slot = true := departed_noteDeparture _ _ _
  have hcommit := commitLeave_steps reason hgone
  dsimp only
  split
  · rename_i heq
    rw [heq] at hcommit
    exact hcommit
  · rename_i m' heq
    have hsame := commitLeave_none (congrArg Prod.snd heq)
    rw [heq] at hsame
    subst hsame
    split
    · exact .refl _
    · rename_i hu
      exact .single (.commit _ slot reason 0 (by simpa using hu) hgone)

theorem seedDeparted_steps (d : DepartedSlot) :
    Steps Step m ((m.seedDeparted d).2.toList.map .seeded) (m.seedDeparted d).1 := by
  unfold seedDeparted
  refine .silent (.depart m d.slot { finalTurnCount := m.seedCount d, finalized := m.seedFinalized d } d.reason none) ?_
  dsimp only
  split
  · exact .refl _
  · rename_i hu
    exact .single (.seed _ d (by simpa using hu) (departed_noteDeparture _ _ _))

/-- A fold of calls that collects what each of them authored, as events `ev`. -/
theorem foldl_authored (ev : LeaveDirective → MakerEvent) (f : DecisionMaker → α → DecisionMaker × Option LeaveDirective)
    (hf : ∀ m a, Steps Step m ((f m a).2.toList.map ev) (f m a).1) (l : List α) (acc : List LeaveDirective) :
    ∃ fresh,
      (l.foldl (fun (p : DecisionMaker × List LeaveDirective) a => ((f p.1 a).1, p.2 ++ (f p.1 a).2.toList)) (m, acc)).2
        = acc ++ fresh ∧
      Steps Step m (fresh.map ev)
        (l.foldl (fun (p : DecisionMaker × List LeaveDirective) a =>
          ((f p.1 a).1, p.2 ++ (f p.1 a).2.toList)) (m, acc)).1 := by
  induction l generalizing m acc with
  | nil => exact ⟨[], by simp, .refl m⟩
  | cons a l ih =>
    obtain ⟨fresh, heq, hsteps⟩ := ih (m := (f m a).1) (acc ++ (f m a).2.toList)
    refine ⟨(f m a).2.toList ++ fresh, ?_, ?_⟩
    · rw [List.foldl_cons, heq, List.append_assoc]
    · rw [List.map_append]
      exact (hf m a).trans hsteps

theorem seedResumed_steps (departed : List DepartedSlot) :
    Steps Step m ((m.seedResumed departed).2.map .seeded) (m.seedResumed departed).1 := by
  obtain ⟨fresh, heq, hsteps⟩ := foldl_authored (m := m) .seeded seedDeparted (fun m d => seedDeparted_steps d) departed []
  have hfresh : (m.seedResumed departed).2 = fresh := heq
  rw [hfresh]
  have hlast := hsteps.trans (.single (.resume _))
  rw [List.append_nil] at hlast
  exact hlast

/-- An adopted leave: the link goes down, the departure is recorded, the directive is cached. The code
    caches first. -/
theorem adopt_steps {leave : LeaveDirective} (hs : SlotId.ofWire leave.slot = some slot) (hu : m.leaveDecided slot = false)
    (stamps : DepartureStamps) (reason : Nat) :
    Steps Step m [.heard (normalizeObservedLeave leave m.finalizedDropsEnabled)]
      (({ m with nextLeaveSeq := max m.nextLeaveSeq leave.leaveSeq }.cacheLeave slot
        (normalizeObservedLeave leave m.finalizedDropsEnabled)).noteDeparture slot stamps reason none) :=
  .silent (.depart m slot stamps reason none)
    (.single (.adopt (m.noteDeparture slot stamps reason none) slot leave hs hu (departed_noteDeparture _ _ _)))

theorem observeLeave_steps :
    Steps Step m (if (SlotId.ofWire leave.slot).isSome then
      [.heard (normalizeObservedLeave leave m.finalizedDropsEnabled)] else [])
      (m.observeLeave leave).1 := by
  unfold observeLeave
  simp only [normalizeObservedLeave_slot, normalizeObservedLeave_leaveSeq]
  cases hs : SlotId.ofWire leave.slot with
  | none => exact .refl m
  | some slot =>
    simp only [Option.isSome_some, if_true]
    cases hu : m.leaveDecided slot with
    | true =>
      have hstep := Step.hear m (normalizeObservedLeave leave m.finalizedDropsEnabled)
      rw [normalizeObservedLeave_leaveSeq] at hstep
      exact .single hstep
    | false =>
      simp only [Bool.not_false, if_true]
      split
      · rename_i epoch hc
        exact .silent (.down m slot epoch (.inr hc)) (adopt_steps hs (by exact hu) _ _)
      · exact adopt_steps hs hu _ _

/-- The checks a seal is taken behind. -/
structure Sealable (m : DecisionMaker) (slot : SlotId) (epoch : Option Nat) : Prop where
  undecided : m.leaveDecided slot = false
  down : m.connectionIsUp slot = false
  current : m.departureEpoch slot = epoch
  atHome : slot ∉ m.rehomedHomes
  schedulable : m.countedLeaveSchedulable slot = true

theorem Sealable.seals (h : m.Sealable slot epoch) :
    m.sealForFinalize slot epoch = ({ m with finalizingDrops := insert slot m.finalizingDrops }, none) := by
  have hleave : m.decidedLeaves.get? slot = none := by simpa [leaveDecided] using h.undecided
  unfold sealForFinalize
  simp [hleave, h.down, h.current, h.atHome, h.schedulable]

theorem sealable_of_sealed (h : (m.sealForFinalize slot epoch).2 = none) : m.Sealable slot epoch := by
  unfold sealForFinalize at h
  split at h
  · cases h
  · rename_i hleave
    have hundecided := leaveDecided_of_none hleave
    split at h
    · cases h
    rename_i hdown
    split at h
    · cases h
    rename_i hcurrent
    split at h
    · cases h
    rename_i hhome
    split at h
    · cases h
    rename_i hsched
    exact ⟨hundecided, by simpa using hdown, by simpa using hcurrent, hhome, by simpa using hsched⟩

theorem sealForFinalize_steps (epoch : Option Nat) : Steps Step m [] (m.sealForFinalize slot epoch).1 := by
  unfold sealForFinalize
  split
  · exact .refl m
  · iterate 4
      split
      · exact .refl m
    exact .single (.lock m slot)

theorem finishFinalize_steps (reading : ForwardGateReading) :
    Steps Step m (if m.provenCount slot reading = none then [.unsealed slot] else []) (m.finishFinalize slot reading).1 := by
  unfold finishFinalize
  cases m.provenCount slot reading with
  | some count => exact .single (.depart m slot _ leaveReasonDropped none)
  | none => exact .single (.unlock m slot)

/-- What the seal does not touch. -/
theorem provenCount_sealed (reading : ForwardGateReading) (drops : Finset SlotId) :
    { m with finalizingDrops := drops }.provenCount slot reading = m.provenCount slot reading := by
  cases reading <;> rfl

theorem finalizeDrop_steps (epoch : Option Nat) (reading : ForwardGateReading) :
    Steps Step m (if (m.sealForFinalize slot epoch).2 = none ∧ m.provenCount slot reading = none then
      [.unsealed slot] else [])
      (m.finalizeDrop slot epoch reading).1 := by
  have hseal : Steps Step m [] (m.sealForFinalize slot epoch).1 := sealForFinalize_steps epoch
  unfold finalizeDrop
  rcases heq : m.sealForFinalize slot epoch with ⟨m', _ | outcome⟩
  · have hm' := (sealable_of_sealed (congrArg Prod.snd heq)).seals
    have hfinish : Steps Step m' _ (m'.finishFinalize slot reading).1 := finishFinalize_steps reading
    rw [heq] at hseal hm'
    cases congrArg Prod.fst hm'
    rw [provenCount_sealed] at hfinish
    simpa using hseal.trans hfinish
  · rw [heq] at hseal
    simpa using hseal

/-! ## Authority -/

theorem drainHandoffLeaves_steps (held : Finset SlotId) (order : List SlotId) :
    Steps Step m (authoredEvents (m.drainHandoffLeaves held order).2.2) (m.drainHandoffLeaves held order).1 := by
  obtain ⟨fresh, heq, hsteps⟩ := foldl_authored (m := m) .authored (fun m (d : SlotId × Nat) => m.decideLeave d.1 d.2)
    (fun m d => decideLeave_steps d.2) (m.toDerive held order) []
  have hfresh : (m.drainHandoffLeaves held order).2.2 = fresh := heq
  rw [hfresh]
  exact hsteps

theorem setAuthority_steps (authority : Authority) (held : Finset SlotId) (order : List SlotId) :
    Steps Step m (((some authority).filter (m.authority ≠ ·)).toList.map .handover ++
        authoredEvents (m.setAuthority authority held order).2.2) (m.setAuthority authority held order).1 := by
  unfold setAuthority
  by_cases heq : m.authority = authority
  · simp only [heq, if_true, Option.filter_some, ne_eq, not_true_eq_false, decide_false]
    exact .refl m
  · have hstep := Step.handover m authority heq
    simp only [heq, if_false, Option.filter_some, ne_eq, not_false_eq_true, decide_true, if_true]
    split
    · rename_i hpromoted
      rw [if_pos hpromoted.2] at hstep
      exact .head hstep (drainHandoffLeaves_steps held order)
    · rename_i hdemoted
      have hpeer : authority ≠ .selfRelay := by
        intro hself
        refine hdemoted ⟨?_, hself⟩
        cases hm : m.authority with
        | peer => rfl
        | selfRelay => exact absurd (hm.trans hself.symm) heq
      rw [if_neg hpeer] at hstep
      exact .single hstep

theorem maybeStart_steps : Steps Step m [] m.maybeStart.1 := by
  unfold maybeStart
  split
  · exact .refl m
  · split
    · exact .single (.shape _ _ _ _ _ _ _ _ _ _ _)
    · exact .refl m

theorem noteSlotPresent_steps : Steps Step m [] (m.noteSlotPresent slot).1 := by
  unfold noteSlotPresent
  split
  · exact .refl m
  · rename_i hopen
    rw [not_or, Bool.not_eq_true, Bool.not_eq_true] at hopen
    exact .silent (.present m slot hopen.1 hopen.2) maybeStart_steps

theorem removeSlotForEpoch_steps (epoch : Option Nat) : Steps Step m [] (m.removeSlotForEpoch slot epoch).1 := by
  unfold removeSlotForEpoch
  split
  · exact .single (.forget m slot)
  · exact .refl m

theorem recordResult_steps (echo : ResultEcho) : Steps Step m [] (m.recordResult slot echo).1 := by
  unfold recordResult
  split
  · exact .refl m
  · split
    · exact .refl m
    · exact .single (.shape _ _ _ _ _ _ _ _ _ _ _)

/-! ## Observing checksums -/

/-- Only the comparator and the order of the turns differ. -/
structure OnlySync (m m' : DecisionMaker) : Prop where
  eq : m' = { m with sync := m'.sync, syncTurns := m'.syncTurns }

theorem OnlySync.refl (m : DecisionMaker) : OnlySync m m := ⟨rfl⟩

theorem OnlySync.trans {m' m'' : DecisionMaker} (h₁ : OnlySync m m') (h₂ : OnlySync m' m'') :
    OnlySync m m'' := ⟨by rw [h₂.eq, h₁.eq]⟩

theorem compareSyncTurn_onlySync (turn : SyncTurn) : OnlySync m (m.compareSyncTurn slot turn).1 := by
  unfold compareSyncTurn
  split
  · exact .refl m
  · dsimp only
    split <;> split <;> try exact ⟨rfl⟩
    all_goals split <;> exact ⟨rfl⟩

theorem popSyncTurn_onlySync : OnlySync m (m.popSyncTurn slot).1 := ⟨rfl⟩

theorem drainSync_onlySync (fuel : Nat) (ready : Ready) : OnlySync m (drainSync slot fuel m ready).1 := by
  induction fuel generalizing m ready with
  | zero =>
    obtain ⟨seq, _ | _ | turn⟩ := ready
    · exact ⟨rfl⟩
    · exact .refl m
    · exact compareSyncTurn_onlySync turn
  | succ fuel ih =>
    obtain ⟨seq, _ | _ | turn⟩ := ready
    · exact ⟨rfl⟩
    · exact .refl m
    · have hcompare : OnlySync m (m.compareSyncTurn slot turn).1 := compareSyncTurn_onlySync turn
      unfold drainSync
      split
      · rename_i heq
        rw [heq] at hcompare
        exact hcompare
      · rename_i heq
        rw [heq] at hcompare
        exact hcompare.trans (popSyncTurn_onlySync.trans (ih _))

theorem observeSync_onlySync (seq : Nat) (frame : Option U32) (commands : List UInt8) (generation : Option U64) :
    OnlySync m (m.observeSyncWithGeneration slot seq frame commands generation).1 := by
  unfold observeSyncWithGeneration
  split
  · exact .refl m
  · split
    · exact .refl m
    · dsimp only
      have hpushed (result : SyncTurns) : OnlySync m { m with syncTurns := result } := ⟨rfl⟩
      split
      · exact (hpushed _).trans (popSyncTurn_onlySync.trans (drainSync_onlySync _ _))
      · exact (hpushed _).trans (drainSync_onlySync _ _)

/-! ## Every call -/

/-- **Every call is made of the listed changes**, and emits what its arguments and its reply show. -/
theorem apply_steps (op : MakerOp) : Steps Step m (op.events m (op.apply m).2) (op.apply m).1 := by
  cases op with
  | observeFrame => exact observeFrame_steps _
  | observeTurnFrame => exact observeTurnFrame_steps _ _
  | observeSync slot seq frame commands generation =>
    have h : OnlySync m (m.observeSyncWithGeneration slot seq frame commands generation).1 :=
      observeSync_onlySync seq frame commands generation
    have hstep := Step.compare m (m.observeSyncWithGeneration slot seq frame commands generation).1.sync
      (m.observeSyncWithGeneration slot seq frame commands generation).1.syncTurns
    rw [← h.eq] at hstep
    exact .single hstep
  | ingestLocal conditions => exact (activateLocalEpochs_steps conditions).trans (ingestSlots_steps conditions)
  | ingestRemote => exact ingestSlots_steps _
  | activateConnectionEpoch => exact activateConnectionEpoch_steps _
  | admitConnectionUp => exact admitConnectionUp_steps _
  | resolveReconnectWith => exact resolveReconnectWith_steps _ _
  | markConnectionDown => exact markConnectionDown_steps _
  | removeSlot => exact .single (.forget _ _)
  | removeSlotForEpoch => exact removeSlotForEpoch_steps _
  | recordDeparture | mergeTerminalDeparture => exact .single (.depart _ _ _ _ _)
  | recordDepartureForEpoch => exact recordDepartureForEpoch_steps _ _ _
  | recordResult => exact recordResult_steps _
  | decideLeave => exact decideLeave_steps _
  | forceDecideLeave => exact forceDecideLeave_steps _
  | observeLeave => exact observeLeave_steps _
  | seedResumed => exact seedResumed_steps _
  | reinstateSlot => exact reinstateSlot_steps
  | sealForFinalize => exact sealForFinalize_steps _
  | finishFinalize => exact finishFinalize_steps _
  | finalizeDrop => exact finalizeDrop_steps _ _
  | setAuthority => exact setAuthority_steps _ _ _
  | syncDescriptor bounds authority held order =>
    have hset := setAuthority_steps (m := { m with bounds }) authority held order
    exact .silent (.shape m bounds _ _ _ _ _ _ _ _ _) hset
  | setObservers => exact .single (.setObservers _ _)
  | setExpectedSlots | setHomedSlots | rehomeHomedSlots | markHomesRehomed | noteSlotStarted | notePeerSlotStarted
  | noteHomeTurnForwarded | markStarted | markEvicted => exact .single (.shape _ _ _ _ _ _ _ _ _ _ _)
  | noteSlotPresent => exact noteSlotPresent_steps
  | maybeStart => exact maybeStart_steps

/-! ## Whole runs -/

theorem after_cons (m : DecisionMaker) (op : MakerOp) (ops : List MakerOp) :
    m.after (op :: ops) = (op.apply m).1.after ops := by
  unfold after
  rw [run_cons]

theorem after_append (m : DecisionMaker) (earlier later : List MakerOp) :
    m.after (earlier ++ later) = (m.after earlier).after later := by
  unfold after
  rw [run_append]

/-- What every change keeps, every run keeps. -/
theorem after_keeps {I : DecisionMaker → Prop} (hstep : ∀ m e m', Step m e m' → I m → I m') (h : I m) (ops : List MakerOp) :
    I (m.after ops) :=
  run_invariant (I := fun m _ => I m) ops h fun _ _ op _ hm =>
    (apply_steps op).keeps (I := fun m _ => I m) (fun m _ e m' hs => hstep m e m' hs) [] hm

end DecisionMaker

end RallyPoint.Relay
