import RallyPoint.Relay.Correctness.DropEffects

/-!
# `Relay.Correctness.Promotion` — a promotion and the drops that are held

A promotion decides the departures nobody decided, except those it is told are held. It is told from a
snapshot of the holds, read before the verdict and under another lock: a drop that is recorded and held
after the snapshot is not in it, and the promotion decides it. `promotion_spares_held_drops` is about the
runs where no drop is recorded behind the back of a snapshot (`Settled`).

The undecided drops of a maker (`Droppable`) grow only where a drop is recorded, and there its hold is
coming. So a drop that is neither in a snapshot nor held stays unheld for as long as the snapshot is
used.
-/

namespace RallyPoint.Relay

open Lib Option AuthorityTask DecisionMaker SessionState World Progress List OrdMap

/-! ## The undecided drops of a maker -/

namespace DecisionMaker

variable {m m' : DecisionMaker} {slot x : SlotId}

/-- The reason the slot's departure was recorded for. -/
def departureReason (m : DecisionMaker) (x : SlotId) : Option Nat := (m.departures.get? x).map (·.reason)

/-- The slot has an undecided drop, which a promotion would decide. -/
def Droppable (m : DecisionMaker) (x : SlotId) : Prop :=
  m.departureReason x = some leaveReasonDropped ∧ m.leaveDecided x = false
deriving Decidable

/-- No drop is added. -/
def Narrows (m m' : DecisionMaker) : Prop := ∀ x, m'.Droppable x → m.Droppable x

theorem Narrows.refl (m : DecisionMaker) : Narrows m m := fun _ h => h

theorem Narrows.trans {m'' : DecisionMaker} (h : Narrows m m') (h' : Narrows m' m'') : Narrows m m'' :=
  fun x hx => h x (h' x hx)

/-- Departures and decided leaves are all there is to a drop. -/
theorem narrows_of_eq (hdepartures : m'.departures = m.departures)
    (hleaves : m'.decidedLeaves = m.decidedLeaves) : Narrows m m' := by
  intro x ⟨hreason, hundecided⟩
  unfold departureReason at hreason
  unfold leaveDecided at hundecided
  rw [hdepartures] at hreason
  rw [hleaves] at hundecided
  exact ⟨hreason, hundecided⟩

theorem not_droppable_of_undeparted (h : m.departed x = false) : ¬ m.Droppable x := by
  rintro ⟨hreason, -⟩
  simp only [departed, isSome_eq_false_iff, isNone_iff_eq_none] at h
  simp [departureReason, h] at hreason

/-- The first reason stands, and other slots keep theirs. -/
theorem departureReason_noteDeparture (stamps : DepartureStamps) (reason : Nat) (epoch : Option Nat)
    (h : x ≠ slot ∨ m.departed slot = true) :
    (m.noteDeparture slot stamps reason epoch).departureReason x = m.departureReason x := by
  unfold departureReason noteDeparture
  simp only [get?_insert]
  split
  · rename_i hx
    subst hx
    obtain ⟨record, hrecord⟩ := isSome_iff_exists.mp (h.resolve_left (· rfl))
    simp [hrecord, mergedDeparture]
  · rfl

/-- A departure of a departed slot adds no drop. -/
theorem noteDeparture_narrows (stamps : DepartureStamps) (reason : Nat) (epoch : Option Nat) (hd : m.departed slot = true) :
    Narrows m (m.noteDeparture slot stamps reason epoch) := by
  rintro x ⟨hreason, hundecided⟩
  rw [departureReason_noteDeparture stamps reason epoch (.inr hd)] at hreason
  exact ⟨hreason, by simpa using hundecided⟩

theorem authorLeave_narrows (directive : LeaveDirective) : Narrows m (m.authorLeave slot directive).1 := by
  rintro x ⟨hreason, hundecided⟩
  refine ⟨hreason, ?_⟩
  have hcached := leaveDecided_cacheLeave { m with nextLeaveSeq := m.nextLeaveSeq + 1 } slot x (m.numbered directive)
  have h : (decide (x = slot) || m.leaveDecided x) = false := hcached.symm.trans hundecided
  exact (Bool.or_eq_false_iff.mp h).2

theorem commitLeave_narrows (reason : Nat) : Narrows m (m.commitLeave slot reason).1 := by
  unfold commitLeave
  split
  · exact .refl m
  · split
    · exact .refl m
    · exact authorLeave_narrows _

theorem decideLeave_narrows (reason : Nat) (hd : m.departed slot = true) : Narrows m (m.decideLeave slot reason).1 := by
  unfold decideLeave
  dsimp only
  split
  · exact noteDeparture_narrows _ _ _ hd
  · exact (noteDeparture_narrows _ _ _ hd).trans (commitLeave_narrows _)

/-- A seeded departure is decided. -/
theorem seedDeparted_narrows (d : DepartedSlot) : Narrows m (m.seedDeparted d).1 := by
  intro x hx
  by_cases hslot : x = d.slot
  · -- whatever it was, it is decided now
    subst hslot
    obtain ⟨-, hundecided⟩ := hx
    unfold seedDeparted at hundecided
    dsimp only at hundecided
    split at hundecided
    · rename_i hdecided
      rw [hdecided] at hundecided
      cases hundecided
    · simp [authorLeave, cacheLeave, leaveDecided] at hundecided
  · have hnote : Narrows (m.noteDeparture d.slot
      { finalTurnCount := m.seedCount d, finalized := m.seedFinalized d } d.reason none)
        (m.seedDeparted d).1 := by
      unfold seedDeparted
      dsimp only
      split
      · exact .refl _
      · exact authorLeave_narrows _
    obtain ⟨hreason, hundecided⟩ := hnote x hx
    rw [departureReason_noteDeparture _ _ _ (.inl hslot)] at hreason
    exact ⟨hreason, by simpa using hundecided⟩

/-- A fold of calls that add no drop adds none. `P` is what each call needs and keeps. -/
theorem foldl_narrows {α : Type} (f : DecisionMaker → α → DecisionMaker × Option LeaveDirective)
    {P : DecisionMaker → α → Prop}
    (hf : ∀ m a, P m a → Narrows m (f m a).1) (hP : ∀ m a b, P m b → P (f m a).1 b) (l : List α) (acc : List LeaveDirective)
    (h : ∀ a ∈ l, P m a) :
    Narrows m (l.foldl (fun (p : DecisionMaker × List LeaveDirective) a =>
      ((f p.1 a).1, p.2 ++ (f p.1 a).2.toList)) (m, acc)).1 := by
  induction l generalizing m acc with
  | nil => exact .refl m
  | cons a l ih =>
    have hrest : ∀ b ∈ l, P (f m a).1 b := fun b hb => hP m a b (h b (mem_cons_of_mem a hb))
    exact (hf m a (h a mem_cons_self)).trans (ih _ hrest)

theorem seedResumed_narrows (departed : List DepartedSlot) : Narrows m (m.seedResumed departed).1 := by
  have hfold := foldl_narrows (m := m) (P := fun _ _ => True) (fun m d => m.seedDeparted d) (fun _ d _ =>
    seedDeparted_narrows d)
    (fun _ _ _ h => h) departed [] (fun _ _ => trivial)
  exact hfold.trans (narrows_of_eq rfl rfl)

/-- What a promotion decides has departed. -/
theorem departed_of_toDerive {held : Finset SlotId} {order : List SlotId} {a : SlotId × Nat}
    (ha : a ∈ m.toDerive held order) : m.departed a.1 = true := by
  obtain ⟨s, -, hs⟩ := mem_filterMap.mp ha
  split at hs
  · rename_i record hrecord
    split at hs
    · cases hs
      exact isSome_iff_exists.mpr ⟨record, hrecord⟩
    · cases hs
  · cases hs

theorem drainHandoffLeaves_narrows (held : Finset SlotId) (order : List SlotId) :
    Narrows m (m.drainHandoffLeaves held order).1 := by
  have hstep : ∀ (m : DecisionMaker) (a : SlotId × Nat), m.departed a.1 = true → Narrows m (m.decideLeave a.1 a.2).1 :=
    fun m a hd => decideLeave_narrows a.2 hd
  have hkeeps : ∀ (m : DecisionMaker) (a b : SlotId × Nat), m.departed b.1 = true →
    (m.decideLeave a.1 a.2).1.departed b.1 = true :=
    fun m a b hd => (decideLeave_stands a.2 b.1).departed hd
  exact foldl_narrows (fun m (a : SlotId × Nat) => m.decideLeave a.1 a.2) hstep hkeeps (m.toDerive held order) []
    fun a ha => departed_of_toDerive ha

theorem setAuthority_narrows (authority : Authority) (held : Finset SlotId) (order : List SlotId) :
    Narrows m (m.setAuthority authority held order).1 := by
  unfold setAuthority
  split
  · exact .refl m
  · split
    · have hhandover : Narrows m { m with authority, sync := .empty } := narrows_of_eq rfl rfl
      exact hhandover.trans (drainHandoffLeaves_narrows held order)
    · exact narrows_of_eq rfl rfl

theorem markConnectionDown_narrows (observed : Option Nat) : Narrows m (m.markConnectionDown slot observed).1 := by
  unfold markConnectionDown
  dsimp only
  repeat' split
  all_goals exact narrows_of_eq rfl rfl

/-- A record adds no drop but that of its slot, and then the departure is taken as pending. -/
theorem recordOutcome_droppable {stamps : DepartureStamps} {reason : Nat} {epoch : Option Nat}
    (h : (m.recordDepartureForEpochOutcome slot stamps reason epoch).1.Droppable x) :
    m.Droppable x ∨ x = slot ∧ (m.recordDepartureForEpochOutcome slot stamps reason epoch).2 = .pending := by
  unfold recordDepartureForEpochOutcome at h ⊢
  split at h
  · -- the leave is decided: the slot has no drop
    rename_i hdecided
    left
    obtain ⟨hreason, hundecided⟩ := h
    have hother : x ≠ slot := by
      rintro rfl
      simp [mergeTerminalDeparture, hdecided] at hundecided
    rw [mergeTerminalDeparture, departureReason_noteDeparture _ _ _ (.inl hother)] at hreason
    exact ⟨hreason, by simpa [mergeTerminalDeparture] using hundecided⟩
  · rename_i hundecided
    rw [if_neg hundecided]
    have hdown : Narrows m (m.markConnectionDown slot epoch).1 := markConnectionDown_narrows epoch
    unfold recordDepartureForEpoch at h ⊢
    rcases hmark : m.markConnectionDown slot epoch with ⟨m', _ | _⟩ <;> simp only [hmark] at h hdown ⊢
    · exact .inl (hdown x h)
    · by_cases hx : x = slot
      · exact .inr ⟨hx, trivial⟩
      · obtain ⟨hreason, hu⟩ := h
        rw [departureReason_noteDeparture _ _ _ (.inl hx)] at hreason
        exact .inl (hdown x ⟨hreason, by simpa using hu⟩)

theorem reinstateSlot_narrows : Narrows m (m.reinstateSlot slot).1 := by
  unfold reinstateSlot
  split
  · exact .refl m
  · split
    · exact .refl m
    · rintro x ⟨hreason, hundecided⟩
      refine ⟨?_, hundecided⟩
      simp only [departureReason, get?_erase] at hreason
      split at hreason
      · cases hreason
      · exact hreason

theorem restoredFor_narrows : Narrows m (m.restoredFor slot) := by
  unfold restoredFor
  split
  · exact reinstateSlot_narrows
  · exact .refl m

/-- **A reconnect adds no drop, and one that takes the hold leaves none of its slot.** -/
theorem resolveReconnectWith_droppable {observed : Option Nat} {hold : Bool} :
    Narrows m (m.resolveReconnectWith slot observed hold).1 ∧
    ((hold && (m.resolveReconnectWith slot observed hold).2.consumeHold) = true →
      ¬ (m.resolveReconnectWith slot observed hold).1.Droppable slot) := by
  rcases resolveReconnectWith_cases (m := m) observed hold with ⟨hmaker, -, hdecided⟩ | ⟨-, -, hback, -, heq⟩
  · rw [hmaker]
    refine ⟨.refl m, fun htaken hx => ?_⟩
    have hleave := hdecided (Bool.and_eq_true_iff.mp htaken).2
    rw [hx.2] at hleave
    cases hleave
  · rw [heq]
    obtain ⟨hdepartures, hleaves, -⟩ :
        ((m.restoredFor slot).admitConnectionUp slot observed).1.departures = (m.restoredFor slot).departures ∧ _ :=
      admitConnectionUp_keeps observed
    have hadmits : Narrows (m.restoredFor slot) ((m.restoredFor slot).admitConnectionUp slot observed).1 :=
      narrows_of_eq hdepartures hleaves
    exact ⟨restoredFor_narrows.trans hadmits, fun _ hx => not_droppable_of_undeparted hback (hadmits slot hx)⟩

theorem maybeStart_narrows : Narrows m m.maybeStart.1 := by
  unfold maybeStart
  split
  · exact .refl m
  · split
    · exact narrows_of_eq rfl rfl
    · exact .refl m

end DecisionMaker

theorem SessionDescriptor.prepare_narrows (d : SessionDescriptor) (m : DecisionMaker) :
    DecisionMaker.Narrows m (d.prepare m) := by
  unfold prepare
  dsimp only
  split
  · exact (narrows_of_eq rfl rfl).trans (seedResumed_narrows _)
  · exact narrows_of_eq rfl rfl

/-! ## Snapshots -/

/-- The snapshot of the holds a task has read and still uses. -/
def ReportPresence.sawHeld : ReportPresence → Option (Finset SlotId)
  | verdict held _ => some held
  | setAuthority _ held _ => some held
  | _ => none

def ApplyDescriptor.sawHeld : ApplyDescriptor → Option (Finset SlotId)
  | syncMaker _ _ held _ => some held
  | _ => none

def ChangeRoster.sawHeld : ChangeRoster → Option (Finset SlotId)
  | report point => point.sawHeld
  | _ => none

def AuthorityTask.sawHeld : AuthorityTask → Option (Finset SlotId)
  | link point => point.sawHeld
  | report point => point.sawHeld
  | descriptor point => point.sawHeld
  | _ => none

/-- **A piece that leaves the holds alone**, adds no drop, and keeps its snapshot or has just read one. -/
structure Passive (before : Option (Finset SlotId)) (s s' : SessionState) (after : Option (Finset SlotId)) : Prop where
  lock : s'.holdsLocked = s.holdsLocked
  holds : s'.holds = s.holds
  drops : DecisionMaker.Narrows s.maker s'.maker
  saw : ∀ H, after = some H → before = some H ∨ s.holdsLocked = false ∧ H = s.pendingSlots

variable {s s' : SessionState} {before after : Option (Finset SlotId)}

/-- A piece without a snapshot. -/
theorem Passive.blind (hlock : s'.holdsLocked = s.holdsLocked) (hholds : s'.holds = s.holds)
    (hdrops : DecisionMaker.Narrows s.maker s'.maker) : Passive before s s' none :=
  ⟨hlock, hholds, hdrops, nofun⟩

/-- A piece that only reads, with the snapshot it had. -/
theorem Passive.read : Passive before s s before := ⟨rfl, rfl, .refl _, fun _ h => .inl h⟩

/-- A piece that reads the holds. -/
theorem Passive.snapshot (hfree : s.holdsLocked = false) : Passive before s s (some s.pendingSlots) :=
  ⟨rfl, rfl, .refl _, fun _ h => .inr ⟨hfree, (some.inj h).symm⟩⟩

/-- The snapshot of a callee is its caller's. -/
theorem Passive.call {τ τ' : Type} {saw : τ → Option (Finset SlotId)} {saw' : τ' → Option (Finset SlotId)} (within : τ → τ')
    (hwithin : ∀ point, saw' (within point) = saw point) {progress : Progress τ Unit}
    (h : Passive before s s' (progress.carries saw)) :
    Passive before s s' ((progress.call within fun _ => .done ()).carries saw') := by
  rw [carries_call hwithin]
  exact h

theorem ReportPresence.passive (point : ReportPresence) (s : SessionState) :
    Passive point.sawHeld s (point.next s).1 ((point.next s).2.carries sawHeld) := by
  cases point with
  | sample | recordOwn | recordPeer =>
    simp only [next]
    split <;> exact .blind rfl rfl (.refl _)
  | snapshot order =>
    cases hlocked : s.holdsLocked with
    | true => simpa [next, hlocked, carries] using Passive.read
    | false => simpa [next, hlocked, carries, sawHeld] using Passive.snapshot hlocked
  | verdict held order =>
    simp only [next]
    split
    · exact .read
    · exact .blind rfl rfl (.refl _)
  | setAuthority authority held order => exact .blind rfl rfl (setAuthority_narrows authority held order)
  | maybeStart => exact .blind rfl rfl maybeStart_narrows

theorem ApplyDescriptor.passive (point : ApplyDescriptor) (s : SessionState) :
    Passive point.sawHeld s (point.next s).1 ((point.next s).2.carries sawHeld) := by
  cases point with
  | setOrder | verdict => exact .blind rfl rfl (.refl _)
  | snapshot d authority order =>
    cases hlocked : s.holdsLocked with
    | true => simpa [next, hlocked, carries] using Passive.read
    | false => simpa [next, hlocked, carries, sawHeld] using Passive.snapshot hlocked
  | syncMaker d authority held order =>
    refine .blind rfl rfl ((d.prepare_narrows s.maker).trans ?_)
    have hbounds : DecisionMaker.Narrows (d.prepare s.maker) { d.prepare s.maker with bounds := d.bounds } :=
      narrows_of_eq rfl rfl
    exact hbounds.trans (setAuthority_narrows authority held order)

theorem ChangeRoster.passive (point : ChangeRoster) (s : SessionState) :
    Passive point.sawHeld s (point.next s).1 ((point.next s).2.carries sawHeld) := by
  cases point with
  | join slot epoch order =>
    simp only [next]
    split
    · exact .blind rfl rfl (.refl _)
    · split
      · exact .blind rfl rfl (.refl _)
      · rename_i registered hregistered
        obtain ⟨-, rfl⟩ := register_eq hregistered
        exact .blind rfl rfl (.refl _)
  | leave slot order =>
    simp only [next]
    split <;> exact .blind rfl rfl (.refl _)
  | report point => exact .call report (fun _ => rfl) (point.passive s)

/-! ## What each piece does -/

/-- The operation is about a drop, and will not supersede or decide anything. -/
def Announce.Dropping : Announce → Prop
  | checkSeat d _ => d.reason = leaveReasonDropped
  | slotFrame d _ => d.reason = leaveReasonDropped
  | reachableFrame d _ _ => d.reason = leaveReasonDropped
  | resultFor d _ _ _ => d.reason = leaveReasonDropped
  | accept d _ => d.reason = leaveReasonDropped
  | record d _ => d.reason = leaveReasonDropped
  | install d _ => d.reason = leaveReasonDropped
  | hold d => d.reason = leaveReasonDropped
  | supersede _ => False
  | decide _ => False

/-- The slot whose drop is recorded next. -/
def Announce.records : Announce → Option SlotId
  | record d _ => some d.slot
  | _ => none

/-- **What a piece of an announcement or a reconnect promises** of the drops, beside its `Guarantee`. -/
structure Conduct (r : Role) (records : Option SlotId) (s s' : SessionState) (r' : Role) : Prop where
  /-- Only a reconnect takes a hold. -/
  kept : ∀ x, s.isPending x = true → s'.isPending x = true ∨ r.consumes = some x
  installs : ∀ x, r.installs = some x → s'.isPending x = true
  /-- A drop is added with its hold coming, -/
  drops : ∀ x, s'.maker.Droppable x → s.maker.Droppable x ∨ r'.installs = some x
  /-- and from its record. -/
  coming : ∀ x, r'.installs = some x → records = some x ∧ s.holdsLocked = false
  consuming : ∀ x, r'.consumes = some x → ¬ s'.maker.Droppable x
  again : ∀ x, r'.holdsAgain = some x → r.installs = some x ∨ r.holdsAgain = some x

section Conduct

variable {r r' : Role} {records : Option SlotId} {x : SlotId}

/-- A piece without a part in the holds. -/
theorem Conduct.plain (hr : r.installs = none) (hholds : s'.holds = s.holds)
    (hdrops : DecisionMaker.Narrows s.maker s'.maker) :
    Conduct r records s s' .plain where
  kept x h := .inl (by simpa only [isPending, hholds] using h)
  installs := by simp [hr]
  drops x h := .inl (hdrops x h)
  coming := nofun
  consuming := nofun
  again := nofun

/-- A task that waits. -/
theorem Conduct.wait (hr : r.holder = false) : Conduct r records s s r where
  kept _ h := .inl h
  installs := by simp [(Role.outside hr).installs]
  drops _ h := .inl h
  coming := by simp [(Role.outside hr).installs]
  consuming := by simp [(Role.outside hr).consumes]
  again _ h := .inr h

theorem isPending_hold (s : SessionState) (slot : SlotId) (since : Nat) : (s.hold slot since).isPending slot = true := by
  unfold SessionState.hold
  split
  · assumption
  · simp [isPending]

theorem isPending_hold_of_pending {slot : SlotId} {since : Nat} (h : s.isPending x = true) :
    (s.hold slot since).isPending x = true := by
  unfold SessionState.hold
  split
  · exact h
  · simp only [isPending, get?_insert] at h ⊢
    split
    · rfl
    · exact h

/-- An announcement of a drop stays one. -/
theorem Announce.Dropping.next {point point' : Announce} (h : point.Dropping) (hp : (point.next s).2 = .going point') :
    point'.Dropping := by
  cases point with
  | checkSeat d count =>
    simp only [Announce.next] at hp
    repeat' split at hp
    all_goals cases hp
    all_goals exact h
  | record d stamps =>
    have hdropped : d.reason = leaveReasonDropped := h
    simp only [Announce.next, hdropped, if_true] at hp
    split at hp <;> cases hp <;> exact h
  | install d requested =>
    cases requested <;> cases hp
    exact h
  | hold d =>
    simp only [Announce.next] at hp
    split at hp <;> cases hp
    exact h
  | supersede d => cases h
  | decide d => cases h
  | _ =>
    cases hp
    exact h

theorem Announce.Dropping.conduct {point : Announce} (h : point.Dropping) (s : SessionState) :
    Conduct point.role point.records s (point.next s).1 (roleOf role (point.next s).2) := by
  cases point with
  | checkSeat d count =>
    simp only [Announce.next]
    repeat' split
    all_goals exact .plain rfl rfl (.refl _)
  | record d stamps =>
    have hdropped : d.reason = leaveReasonDropped := h
    cases hlocked : s.holdsLocked with
    | true => simpa [Announce.next, hdropped, hlocked, roleOf] using Conduct.wait rfl
    | false =>
      simp only [Announce.next, hdropped, hlocked, if_true, Bool.false_eq_true, if_false]
      refine ⟨fun x hx => .inl hx, by rintro _ ⟨⟩, fun x hx => ?_, fun x hx => ?_, by rintro _ ⟨⟩, by rintro _ ⟨⟩⟩
      · rcases recordOutcome_droppable hx with hx | ⟨rfl, hpending⟩
        · exact .inl hx
        · exact .inr (by simp [roleOf, role, Role.installs, hpending])
      · refine ⟨?_, hlocked⟩
        simp only [roleOf, role, Role.installs] at hx
        split at hx
        · exact hx
        · cases hx
  | install d requested =>
    cases requested with
    | true =>
      obtain ⟨hmaker, -⟩ := hold_maker { s with holdsLocked := false } d.slot d.since
      refine ⟨fun x hx => .inl (isPending_hold_of_pending hx), fun x hx => ?_, fun x hx => .inl ?_, by rintro _ ⟨⟩,
        by rintro _ ⟨⟩, fun x hx => .inl hx⟩
      · obtain rfl : d.slot = x := by simpa [role, Role.installs] using hx
        exact isPending_hold _ _ _
      · have hx' : (SessionState.hold { s with holdsLocked := false } d.slot d.since).maker.Droppable x := hx
        rw [hmaker] at hx'
        exact hx'
    | false =>
      obtain ⟨hholds, -, hmaker⟩ := d.leave_eq { s with holdsLocked := false }
      have hnarrows : DecisionMaker.Narrows s.maker (d.leave { s with holdsLocked := false }).maker := by
        rw [hmaker]
        exact .refl _
      exact .plain rfl hholds hnarrows
  | hold d =>
    cases hlocked : s.holdsLocked with
    | true =>
      have hnext : Announce.next (.hold d) s = (s, .going (.hold d)) := by simp [Announce.next, hlocked]
      rw [hnext]
      exact .wait rfl
    | false =>
      have hnext : Announce.next (.hold d) s = (d.leave (s.hold d.slot d.since), .done true) :=
        by simp [Announce.next, hlocked]
      rw [hnext]
      obtain ⟨hholds, -, hmaker⟩ := d.leave_eq (s.hold d.slot d.since)
      obtain ⟨hmaker', -⟩ := hold_maker s d.slot d.since
      refine ⟨fun x hx => .inl ?_, by rintro _ ⟨⟩, fun x hx => .inl ?_, by rintro _ ⟨⟩, by rintro _ ⟨⟩, by rintro _ ⟨⟩⟩
      · have hheld : (s.hold d.slot d.since).isPending x = true := isPending_hold_of_pending hx
        simpa only [isPending, hholds] using hheld
      · rw [hmaker, hmaker'] at hx
        exact hx
  | supersede d => cases h
  | decide d => cases h
  | _ => exact .plain rfl rfl (.refl _)

theorem Reconnect.conduct (point : Reconnect) (s : SessionState) :
    Conduct point.role none s (point.next s).1 (roleOf role (point.next s).2) := by
  cases point with
  | resolve slot observed =>
    cases hlocked : s.holdsLocked with
    | true => simpa [next, hlocked, roleOf] using Conduct.wait rfl
    | false =>
      simp only [next, hlocked, Bool.false_eq_true, if_false]
      obtain ⟨hnarrows, htaken⟩ : DecisionMaker.Narrows s.maker
        (s.maker.resolveReconnectWith slot observed (s.isPending slot)).1 ∧ _ :=
        resolveReconnectWith_droppable
      refine ⟨fun x hx => .inl hx,
        by rintro _ ⟨⟩, fun x hx => .inl (hnarrows x hx), by rintro _ ⟨⟩, fun x hx => ?_, by rintro _ ⟨⟩⟩
      simp only [roleOf, role, Role.consumes] at hx
      split at hx
      · rename_i htakes
        cases hx
        exact htaken htakes
      · cases hx
  | consume slot transition hold =>
    simp only [next, role]
    split
    · rename_i htakes
      refine ⟨fun x hx => ?_, by rintro _ ⟨⟩, fun x hx => .inl hx, by rintro _ ⟨⟩, by rintro _ ⟨⟩, by rintro _ ⟨⟩⟩
      by_cases hslot : x = slot
      · exact .inr (by simp [Role.consumes, hslot])
      · left
        simpa [isPending, release, get?_erase, hslot] using hx
    · exact ⟨fun x hx => .inl hx, by rintro _ ⟨⟩, fun x hx => .inl hx, by rintro _ ⟨⟩, by rintro _ ⟨⟩, by rintro _ ⟨⟩⟩

end Conduct

/-! ## The tasks -/

namespace AuthorityTask

def role : AuthorityTask → Role
  | announce point => point.role
  | reconnect point => point.role
  | _ => .plain

/-- The slot whose drop is recorded next. -/
def records : AuthorityTask → Option SlotId
  | announce point => point.records
  | _ => none

/-- The task is one of those that only record, hold and undo drops. -/
def Dropping : AuthorityTask → Prop
  | announce point => point.Dropping
  | _ => True

/-- A task has the holds locked. -/
def locksHolds (task : AuthorityTask) : Bool := task.role.holder

theorem at_locksHolds (progress : Progress AuthorityTask Unit) : progress.at locksHolds = (roleOf role progress).holder := by
  cases progress <;> rfl

/-- A task with a snapshot has no part in the holds. -/
theorem role_of_sawHeld {progress : Progress AuthorityTask Unit} {H : Finset SlotId}
    (h : progress.carries sawHeld = some H) : roleOf role progress = .plain := by
  cases progress with
  | done => rfl
  | going task => cases task <;> first | rfl | cases h

/-- The holds' lock is respected: only announcements and reconnects touch it, as they promise. -/
theorem guards : World.Guards next SessionState.holdsLocked locksHolds := by
  have hannounce : ∀ (point : Announce) (s : SessionState), Guarantee point.role s (next (announce point) s).1
      (roleOf role (next (announce point) s).2) :=
    fun point s => Guarantee.call announce _ (fun _ => rfl) (fun _ => rfl) (point.guarantee s)
  have hreconnect : ∀ (point : Reconnect) (s : SessionState), Guarantee point.role s (next (reconnect point) s).1
      (roleOf role (next (reconnect point) s).2) :=
    fun point s => Guarantee.call reconnect _ (fun _ => rfl) (fun _ => rfl) (point.guarantee s)
  refine ⟨fun task s h => ?_, fun task s h h' => ?_, fun task s h h' => ?_⟩
  · rw [at_locksHolds]
    cases task with
    | announce point => exact (hannounce point s).mine h
    | reconnect point => exact (hreconnect point s).mine h
    | _ => cases h
  · rw [at_locksHolds] at h'
    cases task with
    | announce point => exact (hannounce point s).others h h'
    | reconnect point => exact (hreconnect point s).others h h'
    | link point | report point | descriptor point => exact (point.passive s).lock
  · cases task with
    | announce point =>
      rw [at_locksHolds] at h'
      exact (hannounce point s).takes h h'
    | reconnect point =>
      rw [at_locksHolds] at h'
      exact (hreconnect point s).takes h h'
    | link | report | descriptor => exact absurd h' (by rw [next, not_at_call fun _ => rfl]; decide)

/-- **What each piece of a task does** to the holds, the drops and the snapshots. -/
structure Effects (task : AuthorityTask) (s s' : SessionState) (progress : Progress AuthorityTask Unit) : Prop where
  held : ∀ x, s'.isPending x = true →
    s.isPending x = true ∨ task.role.installs = some x ∨ task.role.holdsAgain = some x ∧ s.holdsLocked = false
  conduct : Conduct task.role task.records s s' (roleOf role progress)
  saw : ∀ H, progress.carries sawHeld = some H → task.sawHeld = some H ∨ s.holdsLocked = false ∧ H = s'.pendingSlots

variable {task : AuthorityTask}

/-- A caller with the callee's part in the holds, and no snapshot. -/
theorem Effects.active {τ ρ : Type} {calleeRole : τ → Role} (within : τ → AuthorityTask)
    (hwithin : ∀ point, role (within point) = calleeRole point) (hsaw : ∀ point, sawHeld (within point) = none)
    {progress : Progress τ ρ} (hguarantee : Guarantee task.role s s' (roleOf calleeRole progress))
    (hconduct : Conduct task.role task.records s s' (roleOf calleeRole progress)) :
    Effects task s s' (progress.call within fun _ => .done ()) := by
  have hrole : roleOf role (progress.call within fun _ => .done ()) = roleOf calleeRole progress := by
    cases progress with
    | going point => exact hwithin point
    | done => rfl
  have hnone : (progress.call within fun _ => .done ()).carries sawHeld = none := by
    cases progress with
    | going point => exact hsaw point
    | done => rfl
  refine ⟨hguarantee.held, ?_, ?_⟩
  · rw [hrole]
    exact hconduct
  · rw [hnone]
    exact nofun

/-- A caller with the callee's snapshot, and no part in the holds. -/
theorem Effects.passive {τ : Type} {calleeSaw : τ → Option (Finset SlotId)} (within : τ → AuthorityTask)
    (hrole : ∀ point, role (within point) = .plain) (hwithin : ∀ point, sawHeld (within point) = calleeSaw point)
    (htask : task.role = .plain) {progress : Progress τ Unit} (h : Passive task.sawHeld s s' (progress.carries calleeSaw)) :
    Effects task s s' (progress.call within fun _ => .done ()) := by
  have hplain : roleOf role (progress.call within fun _ => .done ()) = .plain := by
    cases progress with
    | going point => exact hrole point
    | done => rfl
  obtain ⟨-, hholds, hdrops, hsaw⟩ := Passive.call within hwithin h
  refine ⟨fun x hx => .inl ?_, ?_, fun H hH => (hsaw H hH).imp id ?_⟩
  · simpa only [isPending, hholds] using hx
  · rw [htask, hplain]
    exact .plain rfl hholds hdrops
  · rintro ⟨hfree, rfl⟩
    exact ⟨hfree, by simp only [pendingSlots, hholds]⟩

theorem Dropping.effects (h : task.Dropping) (s : SessionState) : Effects task s (task.next s).1 (task.next s).2 := by
  cases task with
  | announce point =>
    exact .active announce (fun _ => rfl) (fun _ => rfl) (point.guarantee s) (Announce.Dropping.conduct h s)
  | reconnect point => exact .active reconnect (fun _ => rfl) (fun _ => rfl) (point.guarantee s) (point.conduct s)
  | link point => exact .passive link (fun _ => rfl) (fun _ => rfl) rfl (point.passive s)
  | report point => exact .passive report (fun _ => rfl) (fun _ => rfl) rfl (point.passive s)
  | descriptor point => exact .passive descriptor (fun _ => rfl) (fun _ => rfl) rfl (point.passive s)

theorem Dropping.next {task' : AuthorityTask} (h : task.Dropping) (hp : (task.next s).2 = .going task') :
    task'.Dropping := by
  cases task with
  | announce point =>
    obtain ⟨point', hpoint, rfl⟩ := call_eq_going hp
    exact Announce.Dropping.next h hpoint
  | _ =>
    obtain ⟨point', -, rfl⟩ := call_eq_going hp
    trivial

/-- An operation begins outside the holds, without a snapshot, and with a drop if with a departure. -/
theorem of_isEntry (h : task.isEntry = true) :
    task.role.Outside ∧ task.role.holdsAgain = none ∧ task.sawHeld = none ∧ task.Dropping := by
  unfold isEntry at h
  split at h <;> first | cases h | skip
  all_goals refine ⟨⟨rfl, rfl, rfl⟩, rfl, rfl, ?_⟩
  · exact (by simpa using h : _ ∧ _ = leaveReasonDropped).2
  · exact (by simpa using h : _ ∧ _ = leaveReasonDropped).2
  all_goals trivial

end AuthorityTask

/-! ## Runs -/

abbrev AuthorityWorld := World SessionState AuthorityTask Unit

section Runs

variable {w : AuthorityWorld} {x : SlotId} {i : Nat} {task : AuthorityTask}

/-- A drop of the slot has been recorded, and its hold comes next. -/
def HoldComing (w : AuthorityWorld) (x : SlotId) : Prop := ∃ p ∈ w.tasks, (roleOf role p).installs = some x

/-- The slot's drop is held, or about to be. -/
def Shielded (w : AuthorityWorld) (x : SlotId) : Prop := w.shared.isPending x = true ∨ HoldComing w x

/-- Every snapshot in use names the slot. -/
def Named (w : AuthorityWorld) (x : SlotId) : Prop := ∀ p ∈ w.tasks, ∀ H ∈ p.carries sawHeld, x ∈ H

/-- **The condition on a run**: a drop is recorded only while every snapshot in use names its slot. -/
def Settled (w : AuthorityWorld) : Move AuthorityTask → Prop
  | .start task => task.isEntry = true
  | .advance i => ∀ task ∈ w.pointOf (.advance i), ∀ x ∈ task.records, w.shared.holdsLocked = false → Named w x

-- decided by the options' own values: slots and sets of slots are finite types, and are not to be enumerated

instance (w : AuthorityWorld) (x : SlotId) : Decidable (Named w x) :=
  @List.decidableBAll _ _ (fun _ => Option.decidableForallMem _) w.tasks

instance (w : AuthorityWorld) : (m : Move AuthorityTask) → Decidable (Settled w m)
  | .start task => inferInstanceAs (Decidable (task.isEntry = true))
  | .advance _ => @Option.decidableForallMem _ _ (fun _ => Option.decidableForallMem _) _

/-- **What holds while tasks are under way.** -/
structure Fair (w : AuthorityWorld) : Prop where
  excluded : World.Excluded SessionState.holdsLocked locksHolds w
  dropping : ∀ task, .going task ∈ w.tasks → task.Dropping
  /-- A hold about to be taken is of no drop. -/
  consuming : ∀ p ∈ w.tasks, ∀ x, (roleOf role p).consumes = some x → ¬ w.shared.maker.Droppable x
  /-- A drop that is held once more is held. -/
  again : ∀ p ∈ w.tasks, ∀ x, (roleOf role p).holdsAgain = some x → w.shared.maker.Droppable x → Shielded w x
  /-- A drop that a snapshot in use does not name is not held. -/
  saw : ∀ p ∈ w.tasks, ∀ H, p.carries sawHeld = some H → ∀ x, w.shared.maker.Droppable x → x ∈ H ∨ ¬ Shielded w x

/-- The world after a piece of the task `i`. -/
abbrev promoted (w : AuthorityWorld) (i : Nat) (task : AuthorityTask) : AuthorityWorld :=
  ⟨(task.next w.shared).1, w.tasks.set i (task.next w.shared).2⟩

theorem Fair.locked (h : Fair w) {p : Progress AuthorityTask Unit} (hp : p ∈ w.tasks)
    (hholder : (roleOf role p).holder = true) : w.shared.holdsLocked = true := by
  cases p with
  | done => cases hholder
  | going task => exact h.excluded.taken hp hholder

/-- A shield stands while there is a drop to shield. -/
theorem Fair.shielded (h : Fair w) (hi : w.tasks[i]? = some (.going task))
    (hshield : w.shared.maker.Droppable x → Shielded w x) (hdrop : (promoted w i task).shared.maker.Droppable x) :
    Shielded (promoted w i task) x := by
  have hmem : .going task ∈ w.tasks := mem_of_getElem? hi
  have heffects := (h.dropping task hmem).effects w.shared
  have hself : (task.next w.shared).2 ∈ w.tasks.set i (task.next w.shared).2 := mem_set_self hi
  rcases heffects.conduct.drops x hdrop with hbefore | hcoming
  · rcases hshield hbefore with hheld | hcoming
    · rcases heffects.conduct.kept x hheld with hheld | hconsumes
      · exact .inl hheld
      · exact absurd hbefore (h.consuming _ hmem x hconsumes)
    · rcases exists_set _ hi hcoming with hmine | hother
      · exact .inl (heffects.conduct.installs x hmine)
      · exact .inr hother
  · exact .inr ⟨_, hself, hcoming⟩

theorem Fair.advance (h : Fair w) (hi : w.tasks[i]? = some (.going task)) (hok : Settled w (.advance i))
    (hexcluded : World.Excluded SessionState.holdsLocked locksHolds (promoted w i task)) :
    Fair (promoted w i task) := by
  have hmem : .going task ∈ w.tasks := mem_of_getElem? hi
  have hdropping := h.dropping task hmem
  have heffects := hdropping.effects w.shared
  have hrecords : ∀ x, (roleOf role (task.next w.shared).2).installs = some x →
      ∀ p ∈ w.tasks, ∀ H, p.carries sawHeld = some H → x ∈ H := by
    intro x hx p hp H hH
    obtain ⟨hrecords, hfree⟩ := heffects.conduct.coming x hx
    exact hok task (by simp [pointOf, hi]) x hrecords hfree p hp H hH
  refine ⟨hexcluded, fun task' hp => ?_, fun p hp x hconsumes hdrop => ?_, fun p hp x hagain hdrop => ?_,
    fun p hp H hH x hdrop => ?_⟩
  · rcases mem_of_mem_set hp with heq | hp
    · exact hdropping.next heq.symm
    · exact h.dropping task' hp
  · rcases mem_of_mem_set hp with rfl | hp
    · exact heffects.conduct.consuming x hconsumes hdrop
    · rcases heffects.conduct.drops x hdrop with hbefore | hcoming
      · exact h.consuming p hp x hconsumes hbefore
      · -- nothing is recorded while a reconnect has the holds
        have hlocked := h.locked hp (Role.holder_of_consumes hconsumes)
        simp [(heffects.conduct.coming x hcoming).2] at hlocked
  · refine h.shielded hi ?_ hdrop
    rcases mem_of_mem_set hp with rfl | hp
    · intro hbefore
      rcases heffects.conduct.again x hagain with hinstalls | hagain
      · exact .inr ⟨_, hmem, hinstalls⟩
      · exact h.again _ hmem x hagain hbefore
    · exact h.again p hp x hagain
  · -- a snapshot that was in use before the piece
    have hold : ∀ p ∈ w.tasks, p.carries sawHeld = some H → x ∈ H ∨ ¬ Shielded (promoted w i task) x := by
      intro p hp hH
      by_cases hx : x ∈ H
      · exact .inl hx
      right
      have hnew : ¬ (roleOf role (task.next w.shared).2).installs = some x :=
        fun hcoming => hx (hrecords x hcoming p hp H hH)
      have hbefore := (heffects.conduct.drops x hdrop).resolve_right hnew
      have hloose : ¬ Shielded w x := (h.saw p hp H hH x hbefore).resolve_left hx
      rintro (hheld | ⟨q, hq, hcoming⟩)
      · rcases heffects.held x hheld with hheld | hinstalls | ⟨hagain, _⟩
        · exact hloose (.inl hheld)
        · exact hloose (.inr ⟨_, hmem, hinstalls⟩)
        · exact hloose (h.again _ hmem x hagain hbefore)
      · rcases mem_of_mem_set hq with rfl | hq
        · exact hnew hcoming
        · exact hloose (.inr ⟨q, hq, hcoming⟩)
    rcases mem_of_mem_set hp with rfl | hp
    swap
    · exact hold p hp hH
    rcases heffects.saw H hH with hbefore | ⟨hfree, rfl⟩
    · exact hold _ hmem hbefore
    · -- a snapshot just read names every hold, and no hold is coming
      by_cases hheld : (promoted w i task).shared.isPending x = true
      · exact .inl (mem_keys.mpr (isSome_iff_exists.mp hheld))
      · right
        rintro (hheld' | ⟨q, hq, hcoming⟩)
        · exact hheld hheld'
        · rcases mem_of_mem_set hq with rfl | hq
          · rw [role_of_sawHeld hH] at hcoming
            cases hcoming
          · have hlocked := h.locked hq (Role.holder_of_installs hcoming)
            simp [hfree] at hlocked

/-- A task that begins has no part in the holds, and no snapshot. -/
theorem Fair.start (h : Fair w) (hentry : task.isEntry = true)
    (hexcluded : World.Excluded SessionState.holdsLocked locksHolds { w with tasks := w.tasks ++ [.going task] }) :
    Fair { w with tasks := w.tasks ++ [.going task] } := by
  obtain ⟨houtside, hagain, hsaw, hdropping⟩ := of_isEntry hentry
  have hcases : ∀ p ∈ w.tasks ++ [.going task], p ∈ w.tasks ∨ p = .going task := fun p hp => by simpa using hp
  have hshield : ∀ x, Shielded { w with tasks := w.tasks ++ [.going task] } x ↔ Shielded w x := by
    intro x
    constructor
    · rintro (hheld | ⟨p, hp, hcoming⟩)
      · exact .inl hheld
      · rcases hcases p hp with hp | rfl
        · exact .inr ⟨p, hp, hcoming⟩
        · exact absurd hcoming (by simp [roleOf, houtside.installs])
    · rintro (hheld | ⟨p, hp, hcoming⟩)
      · exact .inl hheld
      · exact .inr ⟨p, mem_append_left _ hp, hcoming⟩
  refine ⟨hexcluded, fun task' hp => ?_, fun p hp x hx => ?_, fun p hp x hx hdrop => ?_, fun p hp H hH x hdrop => ?_⟩
  · rcases hcases _ hp with hp | heq
    · exact h.dropping task' hp
    · cases heq
      exact hdropping
  · rcases hcases p hp with hp | rfl
    · exact h.consuming p hp x hx
    · exact absurd hx (by simp [roleOf, houtside.consumes])
  · rcases hcases p hp with hp | rfl
    · exact (hshield x).mpr (h.again p hp x hx hdrop)
    · exact absurd hx (by simp [roleOf, hagain])
  · rcases hcases p hp with hp | rfl
    · exact (h.saw p hp H hH x hdrop).imp id fun hloose hx => hloose ((hshield x).mp hx)
    · exact absurd hH (by simp [carries, hsaw])

theorem Fair.excluded_move (h : Fair w) {m : Move AuthorityTask} (hok : Settled w m) :
    World.Excluded SessionState.holdsLocked locksHolds (w.move next m) := by
  refine h.excluded.move guards ?_
  rintro task rfl
  exact (of_isEntry hok).1.holder

theorem Fair.move (h : Fair w) {m : Move AuthorityTask} (hok : Settled w m) : Fair (w.move next m) := by
  have hexcluded := h.excluded_move hok
  revert hexcluded
  refine move_cases (I := fun w' => World.Excluded _ _ w' → Fair w') m (fun _ => h) ?_ ?_
  · rintro task rfl hexcluded
    exact h.start hok hexcluded
  · rintro i task rfl _ hi hexcluded
    exact h.advance hi hok hexcluded

/-- Every undecided drop is held, or about to be. -/
def AllShielded (w : AuthorityWorld) : Prop := ∀ x, w.shared.maker.Droppable x → Shielded w x

theorem AllShielded.move (hall : AllShielded w) (h : Fair w) (m : Move AuthorityTask) : AllShielded (w.move next m) := by
  refine move_cases m hall ?_ ?_
  · rintro task - x hdrop
    exact (hall x hdrop).imp id fun ⟨p, hp, hcoming⟩ => ⟨p, mem_append_left _ hp, hcoming⟩
  · rintro i task - - hi x hdrop
    exact h.shielded hi (hall x) hdrop

variable {leave : LeaveDirective}

/-- **A leave that is decided afresh** is no drop, or an undecided one that the snapshot does not name. -/
theorem AuthorityTask.mem_commits (h : leave ∈ task.commits w.shared)
    (hreason : leave.reason = leaveReasonDropped) :
    ∃ H x, task.sawHeld = some H ∧ SlotId.ofWire leave.slot = some x ∧ w.shared.maker.Droppable x ∧ x ∉ H := by
  have hfresh : ∀ (m : DecisionMaker) (authority : Authority) (H : Finset SlotId) (order : List SlotId),
      leave ∈ (m.setAuthority authority H order).2.2 → ∃ x, SlotId.ofWire leave.slot = some x ∧ m.Droppable x ∧ x ∉ H := by
    intro m authority H order hl
    obtain ⟨-, -, x, record, hrecord, hundecided, hx, hslot, hleave⟩ := mem_setAuthority_fresh hl
    refine ⟨x, by simp [hslot], ⟨?_, hundecided⟩, hx⟩
    simp [departureReason, hrecord, ← hleave, hreason]
  have hreport : ∀ point : ReportPresence, leave ∈ point.commits w.shared →
      ∃ H x, point.sawHeld = some H ∧ SlotId.ofWire leave.slot = some x ∧ w.shared.maker.Droppable x ∧ x ∉ H := by
    intro point hl
    cases point with
    | setAuthority authority H order =>
      obtain ⟨x, hx⟩ := hfresh w.shared.maker authority H order hl
      exact ⟨H, x, rfl, hx⟩
    | _ => cases hl
  cases task with
  | report point => exact hreport point h
  | link point =>
    cases point with
    | report point => exact hreport point h
    | _ => cases h
  | descriptor point =>
    cases point with
    | syncMaker d authority H order =>
      obtain ⟨x, hslot, hdrop, hx⟩ := hfresh _ authority H order h
      have hbounds : DecisionMaker.Narrows (d.prepare w.shared.maker) { d.prepare w.shared.maker with bounds := d.bounds } :=
        narrows_of_eq rfl rfl
      exact ⟨H, x, rfl, hslot, d.prepare_narrows _ x (hbounds x hdrop), hx⟩
    | _ => cases h
  | _ => cases h

theorem Fair.init (s : SessionState) (hfree : s.holdsLocked = false) : Fair (World.init s) := by
  refine ⟨by simp [World.Excluded, World.init, hfree], ?_, ?_, ?_, ?_⟩ <;> simp [World.init]

/-- A leave about to be decided as a drop is of a slot that is not shielded. -/
theorem Fair.commits (h : Fair w) (hmem : .going task ∈ w.tasks) (hleave : leave ∈ task.commits w.shared)
    (hreason : leave.reason = leaveReasonDropped) :
    ∃ x, SlotId.ofWire leave.slot = some x ∧ w.shared.maker.Droppable x ∧ ¬ Shielded w x := by
  obtain ⟨H, x, hsaw, hslot, hdrop, hx⟩ := mem_commits hleave hreason
  exact ⟨x, hslot, hdrop, (h.saw _ hmem H hsaw x hdrop).resolve_left hx⟩

/-- **A promotion spares the drops that are held**: `set_authority` decides no drop of a slot whose hold
    is in the registry, in every settled run; and if every undecided drop was held when the run began, it
    decides no drop at all. -/
theorem promotion_spares_held_drops (s : SessionState) (hfree : s.holdsLocked = false) (moves : List (Move AuthorityTask))
    (hrun : World.Obeys next Settled (World.init s) moves) :
    let w : AuthorityWorld := (World.init s).run next moves
    (∀ task, .going task ∈ w.tasks → ∀ leave ∈ task.commits w.shared, leave.reason = leaveReasonDropped →
      ∀ x, SlotId.ofWire leave.slot = some x → w.shared.isPending x = false) ∧
    ((∀ x, s.maker.Droppable x → s.isPending x = true) →
      ∀ task, .going task ∈ w.tasks → ∀ leave ∈ task.commits w.shared, leave.reason ≠ leaveReasonDropped) := by
  intro w
  have hstart : Fair (World.init s) := .init s hfree
  have hfair : Fair w := run_invariant (fun _ _ h hok => h.move hok) hstart hrun
  refine ⟨fun task hmem leave hleave hreason x hx => ?_, fun hheld task hmem leave hleave hreason => ?_⟩
  · obtain ⟨y, hy, -, hloose⟩ := hfair.commits hmem hleave hreason
    obtain rfl : x = y := some.inj (hx.symm.trans hy)
    by_contra hpending
    exact hloose (.inl (by simpa using hpending))
  · -- every undecided drop is shielded, all along the run
    have hall : Fair w ∧ AllShielded w :=
      run_invariant (I := fun w => Fair w ∧ AllShielded w) (fun w m h hok => ⟨h.1.move hok, h.2.move h.1 m⟩)
        ⟨hstart, fun x hx => .inl (hheld x hx)⟩ hrun
    obtain ⟨x, -, hdrop, hloose⟩ := hfair.commits hmem hleave hreason
    exact hloose (hall.2 x hdrop)

/-- A relay that stands behind relay 9, with slot 3 connected on generation 7. -/
def standby : SessionState :=
  { SessionState.fresh ((DecisionMaker.create ⟨1, 8⟩ .peer ∅ false false).admitConnectionUp 3 (some 7)).1 10 with
      presence := (SessionPresence.recordPeer (some (.setOrder none [.peer 9, .selfRelay])) 9 1).1 }

/-- A drop of slot 3, heard from a peer. -/
def droppedElsewhere : AuthorityTask := .announce (.accept ⟨3, leaveReasonDropped, some 7, 0, false⟩ { lastFrame := some 5 })

/-- Slot 3's drop is recorded and held before relay 9 empties: the promotion leaves it alone. -/
theorem promotion_spares_held_drops_named :
    let moves : List (Move AuthorityTask) :=
      [.start droppedElsewhere, .start (.report (.recordPeer 9 0 [3]))] ++ [0, 0, 1, 0, 1, 0, 1].map .advance
    let w : AuthorityWorld := (World.init standby).run next moves
    w.shared.maker.Droppable 3 ∧ w.tasks[1]? = some (.going (.report (.setAuthority .selfRelay {3} [3]))) ∧
    ∀ leave ∈ (report (.setAuthority .selfRelay {3} [3])).commits w.shared, leave.reason ≠ leaveReasonDropped := by
  intro moves w
  have htask : w.tasks[1]? = some (.going (.report (.setAuthority .selfRelay {3} [3]))) := rfl
  exact
    ⟨by decide +kernel, htask, (promotion_spares_held_drops standby rfl moves (by decide +kernel)).2 (by decide +kernel) _
    (mem_of_getElem? htask)⟩

/-- Relay 9 empties, and slot 3's drop is recorded and held after the holds were read for the promotion,
    which decides it. -/
theorem promotion_decides_a_held_drop :
    let moves : List (Move AuthorityTask) :=
      [.start (.report (.recordPeer 9 0 [3])), .start droppedElsewhere] ++ [0, 0, 1, 1, 1, 0].map .advance
    let w : AuthorityWorld := (World.init standby).run next moves
    w.tasks[0]? = some (.going (.report (.setAuthority .selfRelay ∅ [3]))) ∧
    w.shared.isPending 3 = true ∧ w.shared.holdsLocked = false ∧
    (∃ leave ∈ (report (.setAuthority .selfRelay ∅ [3])).commits w.shared,
      leave.reason = leaveReasonDropped ∧ SlotId.ofWire leave.slot = some 3) ∧
    (w.move next (.advance 0)).shared.maker.leaveDecided 3 = true :=
  ⟨rfl, by decide +kernel, by decide +kernel, by decide +kernel, by decide +kernel⟩

end Runs

end RallyPoint.Relay
