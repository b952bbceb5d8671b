import RallyPoint.Relay.Correctness.DropEffects

/-!
# `Relay.Correctness.Redial` — an ending link against a new dial of its slot

A link that ends gives its seat up, announces its departure, and reports the roster. A dial of the slot
takes the seat before it is admitted, and gives it back when it is refused. The announcement stands down
when it finds the seat taken, because then the dial is responsible for the slot; but a dial that is
refused afterwards announces nothing, and reports nothing. So the departure is lost, or the roster
sampled with the refused dial's seat stays reported.

`departure_survives_a_redial` is about the runs where the link looks at the roster only while no dial is
between its seat and its answer (`Apart`), for a link whose conditions are published: one that ends
before it published any, where another slot has, announces nothing either.
-/

namespace RallyPoint.Relay

open Lib Lib.Trace SessionState DecisionMaker SessionPresence Progress OrdMap List AdmitDial

/-! ## The maker -/

namespace DecisionMaker

variable {m m' : DecisionMaker} {slot : SlotId}

/-- A reconnect that is rejected leaves the maker as it was. -/
theorem resolveReconnectWith_unchanged {observed : Option Nat} {hold : Bool}
    (h : (m.resolveReconnectWith slot observed hold).2.admission = .rejected) :
    (m.resolveReconnectWith slot observed hold).1 = m := by
  rcases resolveReconnectWith_cases (m := m) observed hold with ⟨hmaker, -⟩ | ⟨-, -, -, -, heq⟩
  · exact hmaker
  · rw [heq] at h
    cases h

/-- The maker knows of the slot's generation, or that the slot is gone: a drop of it is recorded. -/
def Knows (m : DecisionMaker) (slot : SlotId) (epoch : Nat) : Prop :=
  m.connectionStates.get? slot = some (.up epoch) ∨ m.departed slot = true ∨ m.leaveDecided slot = true

theorem Knows.record {epoch : Nat} (h : m.Knows slot epoch) (stamps : DepartureStamps) (reason : Nat) :
    (m.recordDepartureForEpochOutcome slot stamps reason (some epoch)).1.departed slot = true := by
  by_cases hdecided : m.leaveDecided slot = true
  · have hrecord : m.recordDepartureForEpochOutcome slot stamps reason (some epoch) =
        (m.mergeTerminalDeparture slot stamps reason, .terminal) := by simp [recordDepartureForEpochOutcome, hdecided]
    rw [hrecord]
    exact departed_noteDeparture _ _ _
  · rcases h with hup | hdeparted | hdecided'
    · have hrecord : m.recordDepartureForEpochOutcome slot stamps reason (some epoch) =
          ({ m with connectionStates := m.connectionStates.insert slot (.down epoch) }.noteDeparture
            slot stamps reason (some epoch), .pending) := by
        simp [recordDepartureForEpochOutcome, hdecided, recordDepartureForEpoch, markConnectionDown, hup]
      rw [hrecord]
      exact departed_noteDeparture _ _ _
    · exact ((recordOutcome_quiet stamps reason (some epoch)).stands slot).departed hdeparted
    · exact absurd hdecided' hdecided

end DecisionMaker

/-! ## The dial -/

/-- Whether the dial has the seat. -/
def hasSeat : Progress AdmitDial Bool → Bool
  | .going (.register _ _ _) => false
  | .going _ => true
  | .done admitted => admitted

/-- The dial has the seat, and no answer yet. -/
def AdmitDial.midway : AdmitDial → Bool
  | register _ _ _ => false
  | _ => true

/-- Whether the dial is admitted, or about to be. -/
def isAdmitted : Progress AdmitDial Bool → Bool
  | .going (.reconnect _ (.consume _ transition _)) => decide (transition.admission ≠ .rejected)
  | .going _ => false
  | .done admitted => admitted

theorem hasSeat_of_isAdmitted {dial : Progress AdmitDial Bool} (h : isAdmitted dial = true) : hasSeat dial = true := by
  cases dial with
  | done => exact h
  | going point =>
    cases point with
    | register => cases h
    | _ => rfl

/-- A dial with the seat and an answer is admitted. -/
theorem isAdmitted_of_answered {dial : Progress AdmitDial Bool} (h : hasSeat dial = true)
    (hanswered : dial.at midway = false) : isAdmitted dial = true := by
  cases dial with
  | done => exact h
  | going point =>
    cases point with
    | register => cases h
    | _ => cases hanswered

def Reconnect.slot : Reconnect → SlotId
  | resolve slot _ => slot
  | consume slot _ _ => slot

/-- The dial is of the slot. -/
def AdmitDial.Of (slot : SlotId) : AdmitDial → Prop
  | register x _ _ => x = slot
  | reconnect x point => x = slot ∧ point.slot = slot
  | rollBack x => x = slot

/-- **What a piece of the dial does**: to its seat, to the other ones, and to the maker. -/
structure DialEffects (slot : SlotId) (point : AdmitDial) (s s' : SessionState) (dial : Progress AdmitDial Bool) : Prop where
  of : ∀ point', dial = .going point' → point'.Of slot
  lock : s'.rosterLocked = s.rosterLocked
  presence : s'.presence = s.presence
  published : s'.conditions = s.conditions
  others : ∀ x, x ≠ slot → s'.seated x = s.seated x
  seat : s.seated slot = hasSeat (.going point) → s'.seated slot = hasSeat dial
  /-- It waits for a seat that is taken, or is refused. -/
  waits : hasSeat (.going point) = false → s.rosterLocked = true ∨ s.seated slot = true → s' = s ∧ hasSeat dial = false
  admitted : isAdmitted (.going point) = true → isAdmitted dial = true
  maker : isAdmitted dial = true ∨ s'.maker = s.maker

section Dial

variable {s s' : SessionState} {slot : SlotId}

theorem seated_deregister (s : SessionState) (slot x : SlotId) :
    (s.deregister slot).seated x = if x = slot then false else s.seated x := by
  simp only [SessionState.seated, deregister, get?_erase]
  split <;> rfl

/-- A reconnect touches no seat. -/
theorem Reconnect.next_seats (point : Reconnect) (s : SessionState) :
    (point.next s).1.roster = s.roster ∧ (point.next s).1.rosterLocked = s.rosterLocked ∧
    (point.next s).1.presence = s.presence ∧ (point.next s).1.conditions = s.conditions := by
  cases point with
  | resolve | consume =>
    simp only [next]
    split <;> exact ⟨rfl, rfl, rfl, rfl⟩

theorem AdmitDial.effects_register (epoch : Nat) (refused : Bool) (s : SessionState) :
    DialEffects slot (register slot epoch refused) s (next (register slot epoch refused) s).1
      (next (register slot epoch refused) s).2 := by
  by_cases hlocked : s.rosterLocked = true
  · have hnext : next (register slot epoch refused) s = (s, .going (register slot epoch refused)) := by simp [next, hlocked]
    rw [hnext]
    refine ⟨fun point' hp => ?_, rfl, rfl, rfl, fun _ _ => rfl, id, fun _ _ => ⟨rfl, rfl⟩, id, .inr rfl⟩
    cases hp
    rfl
  · cases hregistered : s.register slot epoch with
    | none =>
      have hnext : next (register slot epoch refused) s = (s, .done false) := by simp [next, hlocked, hregistered]
      rw [hnext]
      exact ⟨nofun, rfl, rfl, rfl, fun _ _ => rfl, id, fun _ _ => ⟨rfl, rfl⟩, id, .inr rfl⟩
    | some registered =>
      obtain ⟨hfree, rfl⟩ := register_eq hregistered
      have hnext : next (register slot epoch refused) s = ({ s with roster := s.roster.insert slot epoch },
          .going (if refused then rollBack slot else reconnect slot (.resolve slot (some epoch)))) := by
        simp [next, hlocked, hregistered]
      rw [hnext]
      refine ⟨fun point' hp => ?_, rfl, rfl, rfl, fun x hx => ?_, fun _ => ?_, fun _ hwaits => ?_, nofun, .inr rfl⟩
      · cases refused <;> cases hp
        · exact ⟨rfl, rfl⟩
        · exact rfl
      · simp [SessionState.seated, get?_insert, hx]
      · cases refused <;> simp [SessionState.seated, hasSeat]
      · simp [hlocked, hfree] at hwaits

/-- Where a reconnect takes the dial. -/
def AdmitDial.answer (slot : SlotId) : Reconnected → Progress AdmitDial Bool
  | (.admitted _, _) => .done true
  | (.rejected, _) => .going (rollBack slot)

theorem AdmitDial.effects_reconnect {point : Reconnect} (hpoint : point.slot = slot) (s : SessionState) :
    DialEffects slot (reconnect slot point) s (next (reconnect slot point) s).1 (next (reconnect slot point) s).2 := by
  obtain ⟨hroster, hlock, hpresence, hconditions⟩ := point.next_seats s
  have hnext : next (reconnect slot point) s =
    ((point.next s).1, (point.next s).2.call (reconnect slot) (answer slot)) := rfl
  rw [hnext]
  have hseats : ∀ x, (point.next s).1.seated x = s.seated x := fun x => by simp only [SessionState.seated, hroster]
  have hseat : hasSeat ((point.next s).2.call (reconnect slot) (answer slot)) = true := by
    rcases (point.next s).2 with _ | ⟨_ | _, _⟩ <;> rfl
  suffices hrest : (∀ point', (point.next s).2 = .going point' → point'.slot = slot) ∧
      (isAdmitted (.going (reconnect slot point)) = true →
        isAdmitted ((point.next s).2.call (reconnect slot) (answer slot)) = true) ∧
      (isAdmitted ((point.next s).2.call (reconnect slot) (answer slot)) = true ∨ (point.next s).1.maker = s.maker) by
    obtain ⟨hof, hadmitted, hmaker⟩ := hrest
    refine ⟨fun point' hp => ?_, hlock, hpresence, hconditions, fun x _ => hseats x, fun h => ?_, nofun, hadmitted, hmaker⟩
    · cases hq : (point.next s).2 with
      | going q =>
        rw [hq] at hp
        cases hp
        exact ⟨rfl, hof q hq⟩
      | done result =>
        rw [hq] at hp
        rcases result with ⟨_ | _, _⟩ <;> cases hp
        exact rfl
    · rw [hseats, hseat]
      exact h
  cases point with
  | resolve x observed =>
    cases hpoint
    cases hlocked : s.holdsLocked with
    | true =>
      have hresolve : Reconnect.next (.resolve x observed) s = (s, .going (.resolve x observed)) :=
        by simp [Reconnect.next, hlocked]
      rw [hresolve]
      refine ⟨fun point' hp => ?_, by rintro ⟨⟩, .inr rfl⟩
      cases hp
      rfl
    | false =>
      have hresolve : Reconnect.next (.resolve x observed) s =
          ({ s with maker := (s.maker.resolveReconnectWith x observed (s.isPending x)).1, holdsLocked := true },
            .going (.consume x (s.maker.resolveReconnectWith x observed (s.isPending x)).2 (s.isPending x))) := by
        simp [Reconnect.next, hlocked]
      rw [hresolve]
      refine ⟨fun point' hp => ?_, by rintro ⟨⟩, ?_⟩
      · cases hp
        rfl
      · by_cases hrejected : (s.maker.resolveReconnectWith x observed (s.isPending x)).2.admission = .rejected
        · exact .inr (resolveReconnectWith_unchanged hrejected)
        · exact .inl (by simpa [call, isAdmitted] using hrejected)
  | consume x transition hold =>
    cases hpoint
    refine ⟨by rintro _ ⟨⟩, fun h => ?_, .inr ?_⟩
    · rcases hadmission : transition.admission with _ | _
      · simp [Reconnect.next, call, answer, isAdmitted, hadmission]
      · simp [isAdmitted, hadmission] at h
    · simp only [Reconnect.next]
      split <;> rfl

theorem AdmitDial.effects_rollBack (s : SessionState) :
    DialEffects slot (rollBack slot) s (next (rollBack slot) s).1 (next (rollBack slot) s).2 := by
  by_cases hlocked : s.rosterLocked = true
  · have hnext : next (rollBack slot) s = (s, .going (rollBack slot)) := by simp [next, hlocked]
    rw [hnext]
    refine ⟨fun point' hp => ?_, rfl, rfl, rfl, fun _ _ => rfl, id, nofun, id, .inr rfl⟩
    cases hp
    exact rfl
  · have hnext : next (rollBack slot) s = (s.deregister slot, .done false) := by simp [next, hlocked]
    rw [hnext]
    refine ⟨nofun, rfl, rfl, rfl, fun x hx => ?_, fun _ => ?_, nofun, id, .inr rfl⟩
    · simp [seated_deregister, hx]
    · simp [seated_deregister, hasSeat]

theorem AdmitDial.Of.effects {point : AdmitDial} (h : point.Of slot) (s : SessionState) :
    DialEffects slot point s (point.next s).1 (point.next s).2 := by
  cases point with
  | register x epoch refused =>
    cases h
    exact effects_register epoch refused s
  | reconnect x point =>
    obtain ⟨rfl, hpoint⟩ := h
    exact effects_reconnect hpoint s
  | rollBack x =>
    cases h
    exact effects_rollBack s

end Dial

/-! ## The link -/

/-- A piece that leaves the seats and the report, and keeps the departures. -/
structure KeepsSeats (s s' : SessionState) : Prop where
  roster : s'.roster = s.roster
  lock : s'.rosterLocked = s.rosterLocked
  presence : s'.presence = s.presence
  departed : ∀ x, s.maker.departed x = true → s'.maker.departed x = true

theorem KeepsSeats.seated {s s' : SessionState} (h : KeepsSeats s s') (x : SlotId) : s'.seated x = s.seated x := by
  simp only [SessionState.seated, h.roster]

theorem hold_keepsSeats (s : SessionState) (slot : SlotId) (since : Nat) : KeepsSeats s (s.hold slot since) := by
  unfold SessionState.hold
  split <;> exact ⟨rfl, rfl, rfl, fun _ h => h⟩

theorem FinalizeHome.keepsSeats (point : FinalizeHome) (s : SessionState) : KeepsSeats s (point.next s).1 := by
  have hdeparted : ∀ x, s.maker.departed x = true → (point.next s).1.maker.departed x = true :=
    fun x hx => ((point.guarantee s).departed x hx).resolve_right (by simp [role, Role.resolves])
  cases point <;> exact ⟨rfl, rfl, rfl, hdeparted⟩

theorem Complete.keepsSeats (point : Complete) (s : SessionState) : KeepsSeats s (point.next s).1 := by
  have hdeparted : ∀ x, s.maker.departed x = true → (point.next s).1.maker.departed x = true := by
    intro x hx
    refine ((point.guarantee s).departed x hx).resolve_right ?_
    cases point <;> simp [role, Role.resolves]
  cases point with
  | claim slot =>
    cases hlocked : s.holdsLocked <;> refine ⟨?_, ?_, ?_, hdeparted⟩ <;> simp [next, hlocked, release]
  | _ => exact ⟨rfl, rfl, rfl, hdeparted⟩

theorem FinalizeEvicted.keepsSeats (point : FinalizeEvicted) (s : SessionState) : KeepsSeats s (point.next s).1 := by
  cases point with
  | finalize _ point | complete point => exact point.keepsSeats s
  | _ => exact ⟨rfl, rfl, rfl, fun _ h => h⟩

/-- A zero that is recorded is the report. -/
theorem SessionPresence.recordOwn_zero {entry : Option SessionPresence} {p : SessionPresence}
    (h : p ∈ (recordOwn entry 0).1) : p.ownReport = some 0 := by
  cases entry with
  | none => simp [recordOwn] at h
  | some q =>
    obtain rfl : q.withOwn 0 = p := by simpa [recordOwn] using h
    rfl

/-- How far the end of a link has come. -/
inductive Phase where
  /-- It has its seat. -/
  | seated
  | unpublishing
  | checking
  /-- It has the roster locked, and has not recorded its departure. -/
  | announcing
  /-- It has the roster locked, and the departure is recorded. -/
  | recorded
  | announced
  | sampled (live : Nat)
  | reported

def Announce.phase : Announce → Phase
  | checkSeat _ _ => .checking
  | install _ _ => .recorded
  | hold _ => .recorded
  | supersede _ => .recorded
  | decide _ => .recorded
  | _ => .announcing

def ReportPresence.phase : ReportPresence → Phase
  | sample _ => .announced
  | recordOwn live _ => .sampled live
  | _ => .reported

def EndSlotLink.phase : EndSlotLink → Phase
  | deregister _ => .seated
  | unpublishConditions _ => .unpublishing
  | announce _ point => point.phase
  | report point => point.phase
  | _ => .announced

/-- The announcement of a local drop `d`. -/
def Announce.Of (d : Departing) : Announce → Prop
  | checkSeat e _ => e = d
  | slotFrame e _ => e = d
  | reachableFrame e _ _ => e = d
  | resultFor e _ _ _ => e = d
  | record e _ => e = d
  | install e _ => e = d
  | hold e => e = d
  | _ => False

/-- The end of the link `l`. -/
def EndSlotLink.Of (l : EndedLink) : EndSlotLink → Prop
  | deregister k => k = l
  | unpublishConditions k => k = l
  | announce k point => k = l ∧ point.Of l.departing
  | removeSlot k => k = l
  | finalizeEvicted k _ => k = l
  | report (.recordPeer _ _ _) => False
  | report _ => True

/-- The slot is the only one that may have a seat. -/
def SessionState.Alone (s : SessionState) (slot : SlotId) : Prop := ∀ x, x ≠ slot → s.seated x = false

/-- The conditions the link would unpublish are its own, or there are none. -/
def SessionState.Published (s : SessionState) (l : EndedLink) : Prop :=
  s.conditions.size = 0 ∨ s.conditions.get? l.slot = some l.epoch

/-- The slot is in the dial's hands, or departed. -/
structure Handed (l : EndedLink) (s : SessionState) (dial : Progress AdmitDial Bool) : Prop where
  lock : s.rosterLocked = false
  seat : s.seated l.slot = hasSeat dial
  gone : isAdmitted dial = true ∨ s.maker.departed l.slot = true

/-- **What holds in each phase of the link**, with the dial where it is. -/
def Phase.Holds (l : EndedLink) (s : SessionState) (dial : Progress AdmitDial Bool) : Phase → Prop
  | seated =>
    s.rosterLocked = false ∧ s.seated l.slot = true ∧ hasSeat dial = false ∧ s.Published l ∧ s.maker.Knows l.slot l.epoch
  | unpublishing => s.rosterLocked = false ∧ s.seated l.slot = hasSeat dial ∧ s.Published l ∧
      (isAdmitted dial = true ∨ s.maker.Knows l.slot l.epoch)
  | checking =>
    s.rosterLocked = false ∧ s.seated l.slot = hasSeat dial ∧ (isAdmitted dial = true ∨ s.maker.Knows l.slot l.epoch)
  | announcing => s.rosterLocked = true ∧ s.seated l.slot = false ∧ hasSeat dial = false ∧ s.maker.Knows l.slot l.epoch
  | recorded => s.rosterLocked = true ∧ s.seated l.slot = false ∧ hasSeat dial = false ∧ s.maker.departed l.slot = true
  | announced => Handed l s dial
  | sampled live => Handed l s dial ∧ (s.Alone l.slot → isAdmitted dial = true ∨ live = 0)
  | reported => Handed l s dial ∧ (s.Alone l.slot → isAdmitted dial = true ∨ ∀ p ∈ s.presence, p.ownReport = some 0)

section Link

variable {l : EndedLink} {s s' : SessionState} {dial dial' : Progress AdmitDial Bool}

variable {point : AdmitDial}

/-- A dial that moves on stays admitted, or leaves what the maker knows. -/
theorem DialEffects.kept (h : DialEffects l.slot point s s' dial') {P : DecisionMaker → Prop}
    (hP : isAdmitted (.going point) = true ∨ P s.maker) : isAdmitted dial' = true ∨ P s'.maker := by
  rcases h.maker with hadmitted | hmaker
  · exact .inl hadmitted
  · rw [hmaker]
    exact hP.imp h.admitted id

theorem DialEffects.handed (h : DialEffects l.slot point s s' dial')
    (hhanded : Handed l s (.going point)) : Handed l s' dial' :=
  ⟨h.lock.trans hhanded.lock, h.seat hhanded.seat, h.kept (P := fun m => m.departed l.slot = true) hhanded.gone⟩

theorem DialEffects.alone (h : DialEffects l.slot point s s' dial') (halone : s'.Alone l.slot) : s.Alone l.slot :=
  fun x hx => (h.others x hx).symm.trans (halone x hx)

/-- **The dial keeps what holds in the link's phase.** -/
theorem Phase.Holds.dial_next {phase : Phase} (h : phase.Holds l s (.going point))
    (heffects : DialEffects l.slot point s s' dial') : phase.Holds l s' dial' := by
  cases phase with
  | seated =>
    obtain ⟨hlock, hseat, hnone, hrest⟩ := h
    obtain ⟨rfl, hstill⟩ := heffects.waits hnone (.inr hseat)
    exact ⟨hlock, hseat, hstill, hrest⟩
  | unpublishing =>
    obtain ⟨hlock, hseat, hpublished, hknows⟩ := h
    refine ⟨heffects.lock.trans hlock, heffects.seat hseat, ?_, heffects.kept (P := (·.Knows l.slot l.epoch)) hknows⟩
    unfold SessionState.Published
    rw [heffects.published]
    exact hpublished
  | checking =>
    obtain ⟨hlock, hseat, hknows⟩ := h
    exact ⟨heffects.lock.trans hlock, heffects.seat hseat, heffects.kept (P := (·.Knows l.slot l.epoch)) hknows⟩
  | announcing =>
    obtain ⟨hlock, hseat, hnone, hknows⟩ := h
    obtain ⟨rfl, hstill⟩ := heffects.waits hnone (.inl hlock)
    exact ⟨hlock, hseat, hstill, hknows⟩
  | recorded =>
    obtain ⟨hlock, hseat, hnone, hdeparted⟩ := h
    obtain ⟨rfl, hstill⟩ := heffects.waits hnone (.inl hlock)
    exact ⟨hlock, hseat, hstill, hdeparted⟩
  | announced => exact heffects.handed h
  | sampled live =>
    exact ⟨heffects.handed h.1, fun halone => (h.2 (heffects.alone halone)).imp heffects.admitted id⟩
  | reported =>
    refine ⟨heffects.handed h.1, fun halone => (h.2 (heffects.alone halone)).imp heffects.admitted fun hreport => ?_⟩
    rw [heffects.presence]
    exact hreport

/-- The link looks at the roster to decide what to do. -/
def EndSlotLink.looks : EndSlotLink → Bool
  | announce _ (.checkSeat _ _) => true
  | report (.sample _) => true
  | _ => false

/-- What a piece of the announcement comes to: another phase, or the slot in the dial's hands or
    departed. -/
def Announced (l : EndedLink) (s : SessionState) (dial : Progress AdmitDial Bool) : Progress Announce Bool → Prop
  | .going point => point.Of l.departing ∧ point.phase.Holds l s dial
  | .done _ => Handed l s dial

@[simp] theorem EndedLink.departing_slot (l : EndedLink) : l.departing.slot = l.slot := rfl

@[simp] theorem EndedLink.departing_reason (l : EndedLink) : l.departing.reason = leaveReasonDropped := rfl

@[simp] theorem EndedLink.departing_locks (l : EndedLink) : l.departing.locks = true := by simp [Departing.locks, departing]

/-- Returning from the announcement gives the roster back. -/
theorem Handed.leave (hseat : s.seated l.slot = false) (hnone : hasSeat dial = false)
    (hdeparted : s.maker.departed l.slot = true) : Handed l (l.departing.leave s) dial := by
  have hleave : l.departing.leave s = { s with rosterLocked := false } := by simp [Departing.leave]
  rw [hleave]
  exact ⟨rfl, hseat.trans hnone.symm, .inr hdeparted⟩

theorem Announce.Of.next {point : Announce} (hof : point.Of l.departing) (h : point.phase.Holds l s dial)
    (happart : ∀ d count, point = checkSeat d count → dial.at midway = false) :
    Announced l (point.next s).1 dial (point.next s).2 := by
  cases point with
  | checkSeat d count =>
    cases hof
    obtain ⟨hlock, hseat, hknows⟩ := h
    have hanswered := happart l.departing count rfl
    cases hseated : s.seated l.slot with
    | true =>
      -- the seat is taken: the dial was admitted
      have hnext : Announce.next (checkSeat l.departing count) s = (s, .done false) :=
        by simp [Announce.next, hlock, hseated]
      rw [hnext]
      exact ⟨hlock, hseat, .inl (isAdmitted_of_answered (hseat.symm.trans hseated) hanswered)⟩
    | false =>
      have hnext : Announce.next (checkSeat l.departing count) s =
          ({ s with rosterLocked := true }, .going (slotFrame l.departing count)) := by
        simp [Announce.next, hlock, hseated]
      rw [hnext]
      have hnone : hasSeat dial = false := hseat.symm.trans hseated
      refine ⟨rfl, rfl, hseated, hnone, hknows.resolve_left fun hadmitted => ?_⟩
      rw [hasSeat_of_isAdmitted hadmitted] at hnone
      cases hnone
  | slotFrame | reachableFrame | resultFor => exact ⟨hof, h⟩
  | accept | supersede | decide => cases hof
  | record d stamps =>
    cases hof
    cases hlocked : s.holdsLocked with
    | true =>
      have hnext : Announce.next (record l.departing stamps) s =
        (s, .going (record l.departing stamps)) := by simp [Announce.next, hlocked]
      rw [hnext]
      exact ⟨rfl, h⟩
    | false =>
      obtain ⟨hlock, hseat, hnone, hknows⟩ := h
      simp only [Announce.next, EndedLink.departing_reason, hlocked, if_true, Bool.false_eq_true, if_false]
      exact ⟨rfl, hlock, hseat, hnone, hknows.record stamps leaveReasonDropped⟩
  | install d requested =>
    cases hof
    obtain ⟨hlock, hseat, hnone, hdeparted⟩ := h
    cases requested with
    | true =>
      have hkeeps := hold_keepsSeats { s with holdsLocked := false } l.slot l.since
      exact ⟨rfl, hkeeps.lock.trans hlock, (hkeeps.seated l.slot).trans hseat, hnone, hkeeps.departed l.slot hdeparted⟩
    | false => exact .leave hseat hnone hdeparted
  | hold d =>
    cases hof
    cases hlocked : s.holdsLocked with
    | true =>
      have hnext : Announce.next (hold l.departing) s = (s, .going (hold l.departing)) := by simp [Announce.next, hlocked]
      rw [hnext]
      exact ⟨rfl, h⟩
    | false =>
      obtain ⟨hlock, hseat, hnone, hdeparted⟩ := h
      have hnext : Announce.next (hold l.departing) s =
        (l.departing.leave (s.hold l.slot l.departing.since), .done true) := by
        simp [Announce.next, hlocked]
      rw [hnext]
      have hkeeps := hold_keepsSeats s l.slot l.departing.since
      exact .leave ((hkeeps.seated l.slot).trans hseat) hnone (hkeeps.departed l.slot hdeparted)

/-- A piece that leaves the seats alone leaves the slot in the same hands. -/
theorem Handed.keeps (h : Handed l s dial) (hkeeps : KeepsSeats s s') : Handed l s' dial :=
  ⟨hkeeps.lock.trans h.lock, (hkeeps.seated l.slot).trans h.seat, h.gone.imp id (hkeeps.departed l.slot)⟩

/-- Once the report is recorded, nothing of it changes. -/
theorem Phase.Holds.keeps (h : Phase.reported.Holds l s dial) (hkeeps : KeepsSeats s s') :
    Phase.reported.Holds l s' dial := by
  refine ⟨h.1.keeps hkeeps, fun halone => ?_⟩
  rw [hkeeps.presence]
  exact h.2 fun x hx => (hkeeps.seated x).symm.trans (halone x hx)

/-- Where the link stands, and what holds there. -/
def Linked (l : EndedLink) (s : SessionState) (dial : Progress AdmitDial Bool) : Progress EndSlotLink Unit → Prop
  | .going point => point.Of l ∧ point.phase.Holds l s dial
  | .done _ => Phase.reported.Holds l s dial

theorem setAuthority_keepsSeats (s : SessionState) (authority : Authority) (held : Finset SlotId) (order : List SlotId) :
    KeepsSeats s (s.withMaker (s.maker.setAuthority authority held order).1) :=
  ⟨rfl, rfl, rfl, fun _ h => (departed_of_steps (setAuthority_steps authority held order) h).resolve_right (by simp)⟩

theorem maybeStart_keepsSeats (s : SessionState) : KeepsSeats s (s.withMaker s.maker.maybeStart.1) :=
  ⟨rfl, rfl, rfl, fun _ h => (departed_of_steps maybeStart_steps h).resolve_right (by simp)⟩

theorem EndSlotLink.report_next {point : ReportPresence} (hof : (report point).Of l) (h : point.phase.Holds l s dial)
    (happart : (report point).looks = true → dial.at midway = false) :
    Linked l (next (report point) s).1 dial (next (report point) s).2 := by
  cases point with
  | sample order =>
    have hhanded : Handed l s dial := h
    have hnext : next (report (.sample order)) s = (s, .going (report (.recordOwn s.roster.size order))) := by
      simp [next, ReportPresence.next, hhanded.lock, call]
    rw [hnext]
    refine ⟨trivial, hhanded, fun halone => ?_⟩
    cases hseated : s.seated l.slot with
    | true => exact .inl (isAdmitted_of_answered (hhanded.seat.symm.trans hseated) (happart rfl))
    | false =>
      -- nobody has a seat
      right
      by_contra hsize
      obtain ⟨x, hx⟩ := size_pos.mp (Nat.pos_of_ne_zero hsize)
      have hnone : s.seated x = false := by
        by_cases hslot : x = l.slot
        · exact hslot ▸ hseated
        · exact halone x hslot
      rw [show s.seated x = true from hx] at hnone
      cases hnone
  | recordOwn live order =>
    obtain ⟨hhanded, hlive⟩ := h
    have hreported : Phase.reported.Holds l { s with presence := (recordOwn s.presence live).1 } dial :=
      ⟨⟨hhanded.lock, hhanded.seat, hhanded.gone⟩, fun halone => (hlive halone).imp id fun hzero p hp => by
        subst hzero
        exact recordOwn_zero hp⟩
    cases hchanged : (recordOwn s.presence live).2 with
    | true =>
      have hnext : next (report (.recordOwn live order)) s =
          ({ s with presence := (recordOwn s.presence live).1 }, .going (report (.snapshot order))) := by
        simp [next, ReportPresence.next, hchanged, call]
      rw [hnext]
      exact ⟨trivial, hreported⟩
    | false =>
      have hnext : next (report (.recordOwn live order)) s =
          ({ s with presence := (recordOwn s.presence live).1 }, .done ()) := by
        simp [next, ReportPresence.next, hchanged, call]
      rw [hnext]
      exact hreported
  | recordPeer peer live order => cases hof
  | snapshot | verdict =>
    simp only [next, ReportPresence.next]
    split <;> exact ⟨trivial, h⟩
  | setAuthority authority held order => exact ⟨trivial, h.keeps (setAuthority_keepsSeats s authority held order)⟩
  | maybeStart => exact h.keeps (maybeStart_keepsSeats s)

theorem unpublishConditions_published (h : s.Published l) :
    (s.unpublishConditions l.slot l.epoch).2 = true ∧ (s.unpublishConditions l.slot l.epoch).1.roster = s.roster ∧
    (s.unpublishConditions l.slot l.epoch).1.rosterLocked = s.rosterLocked ∧
      (s.unpublishConditions l.slot l.epoch).1.maker = s.maker := by
  unfold unpublishConditions
  split
  · exact ⟨rfl, rfl, rfl, rfl⟩
  · rename_i hsome
    rw [if_pos (h.resolve_left hsome)]
    exact ⟨rfl, rfl, rfl, rfl⟩

/-- **The link goes from phase to phase.** -/
theorem EndSlotLink.Of.next {point : EndSlotLink} (hof : point.Of l) (h : point.phase.Holds l s dial)
    (happart : point.looks = true → dial.at midway = false) : Linked l (point.next s).1 dial (point.next s).2 := by
  cases point with
  | deregister k =>
    cases hof
    obtain ⟨hlock, -, hnone, hpublished, hknows⟩ := h
    have hnext : EndSlotLink.next (deregister l) s = (s.deregister l.slot, .going (unpublishConditions l)) := by
      simp [EndSlotLink.next, hlock]
    rw [hnext]
    exact ⟨rfl, hlock, by simp [seated_deregister, hnone], hpublished, .inr hknows⟩
  | unpublishConditions k =>
    cases hof
    obtain ⟨hlock, hseat, hpublished, hknows⟩ := h
    obtain ⟨hretired, hroster, hlock', hmaker⟩ := unpublishConditions_published hpublished
    have hnext : EndSlotLink.next (unpublishConditions l) s =
        ((s.unpublishConditions l.slot l.epoch).1, .going (announce l (.checkSeat l.departing none))) := by
      simp [EndSlotLink.next, hretired]
    rw [hnext]
    refine ⟨⟨rfl, rfl⟩, hlock'.trans hlock, ?_, ?_⟩
    · simp only [SessionState.seated, hroster]
      exact hseat
    · rw [hmaker]
      exact hknows
  | announce k point =>
    obtain ⟨rfl, hof⟩ := hof
    have hannounced := hof.next h fun d count hpoint => happart (by rw [hpoint]; rfl)
    show Linked k (point.next s).1 dial ((point.next s).2.call (announce k) fun _ => .going (removeSlot k))
    cases hp : (point.next s).2 with
    | going point' =>
      rw [hp] at hannounced
      exact ⟨⟨rfl, hannounced.1⟩, hannounced.2⟩
    | done answer =>
      rw [hp] at hannounced
      exact ⟨rfl, hannounced⟩
  | removeSlot k =>
    cases hof
    have hhanded : Handed l s dial := h
    have hnext : EndSlotLink.next (removeSlot l) s =
        (if s.seated l.slot then s else s.withMaker (s.maker.removeSlotForEpoch l.slot (some l.epoch)).1,
          .going (finalizeEvicted l (.eviction l.slot))) := by simp [EndSlotLink.next, hhanded.lock]
    rw [hnext]
    refine ⟨rfl, hhanded.keeps ?_⟩
    split
    · exact ⟨rfl, rfl, rfl, fun _ hd => hd⟩
    · exact ⟨rfl, rfl, rfl, fun _ hd => (departed_of_steps (removeSlotForEpoch_steps _) hd).resolve_right (by simp)⟩
  | finalizeEvicted k point =>
    cases hof
    have hhanded : Handed l (point.next s).1 dial := Handed.keeps h (point.keepsSeats s)
    show Linked l (point.next s).1 dial ((point.next s).2.call (finalizeEvicted l) fun _ =>
      .going (report (.sample l.order)))
    cases (point.next s).2 with
    | going point' => exact ⟨rfl, hhanded⟩
    | done => exact ⟨trivial, hhanded⟩
  | report point => exact report_next hof h happart

end Link

/-! ## The race -/

/-- The end of a link, and a dial of its slot. -/
abbrev Redial := Pair SessionState EndSlotLink AdmitDial Unit Bool

/-- **The condition on a run**: no dial is between its seat and its answer when the link looks at the
    roster. -/
def Apart (w : Redial) : Turn → Prop
  | .first => w.first.at EndSlotLink.looks = true → w.second.at midway = false
  | .second => True

instance (w : Redial) : (t : Turn) → Decidable (Apart w t)
  | .first => inferInstanceAs (Decidable (_ → _))
  | .second => .isTrue trivial

/-- The link in its phase, and a dial of its slot. -/
def Redial.Sound (l : EndedLink) (w : Redial) : Prop :=
  Linked l w.shared w.second w.first ∧ ∀ point, w.second = .going point → point.Of l.slot

theorem Redial.Sound.link {l : EndedLink} {s : SessionState} {point : EndSlotLink} {dial : Progress AdmitDial Bool}
    (h : Sound l ⟨s, .going point, dial⟩) (hok : Apart ⟨s, .going point, dial⟩ .first) :
    Sound l ⟨(point.next s).1, (point.next s).2, dial⟩ :=
  ⟨h.1.1.next h.1.2 hok, h.2⟩

theorem Redial.Sound.dial {l : EndedLink} {s : SessionState} {link : Progress EndSlotLink Unit} {point : AdmitDial}
    (h : Sound l ⟨s, link, .going point⟩) : Sound l ⟨(point.next s).1, link, (point.next s).2⟩ := by
  obtain ⟨hlinked, hof⟩ := h
  have heffects := (hof point rfl).effects s
  refine ⟨?_, heffects.of⟩
  cases link with
  | going point => exact ⟨hlinked.1, hlinked.2.dial_next heffects⟩
  | done =>
    have hreported : Phase.reported.Holds l s (.going point) := hlinked
    exact hreported.dial_next heffects

/-- **No departure is lost to a redial**: when the link has ended and the dial is answered, and nobody
    has the seat, the maker holds the slot's departure; and an empty roster is reported as empty. In
    every run that keeps the two apart. -/
theorem departure_survives_a_redial (s : SessionState) (l : EndedLink) (epoch : Nat)
    (refused : Bool) (hfree : s.rosterLocked = false)
    (hseat : s.seated l.slot = true) (hpublished : s.Published l) (hknows : s.maker.Knows l.slot l.epoch) (turns : List Turn)
    (hrun : Pair.Obeys EndSlotLink.next next Apart ⟨s, .going (.deregister l),
      .going (.register l.slot epoch refused)⟩ turns) :
    let w : Redial := Pair.run EndSlotLink.next next ⟨s, .going (.deregister l),
      .going (.register l.slot epoch refused)⟩ turns
    ∀ admitted, w.first = .done () → w.second = .done admitted → w.shared.seated l.slot = false →
      (w.shared.maker.departed l.slot = true ∨ w.shared.maker.leaveDecided l.slot = true) ∧
      (w.shared.roster.size = 0 → ∀ p, w.shared.presence = some p → p.ownReport = some 0) := by
  intro w admitted hfirst _ hunseated
  have hstart : Redial.Sound l ⟨s, .going (.deregister l), .going (.register l.slot epoch refused)⟩ := by
    refine ⟨⟨rfl, hfree, hseat, rfl, hpublished, hknows⟩, fun point hp => ?_⟩
    cases hp
    rfl
  have hsound : Redial.Sound l w := Pair.run_invariant (fun _ _ _ h hok => h.link hok) (fun _ _ _ h _ => h.dial) hstart hrun
  have hreported : Phase.reported.Holds l w.shared w.second := by
    have hlinked := hsound.1
    rw [hfirst] at hlinked
    exact hlinked
  obtain ⟨hhanded, hreport⟩ := hreported
  -- the dial is answered and has no seat
  have hrefused : ¬ isAdmitted w.second = true := by
    intro hadmitted
    have hheld := hhanded.seat.trans (hasSeat_of_isAdmitted hadmitted)
    rw [hunseated] at hheld
    cases hheld
  refine ⟨.inl (hhanded.gone.resolve_left hrefused), fun hempty => (hreport fun x _ => ?_).resolve_left hrefused⟩
  by_contra hx
  have hpos : 0 < w.shared.roster.size := size_pos.mpr ⟨x, (Bool.not_eq_false _).mp hx⟩
  omega

/-- Slot 3 seated on generation 7, on a relay that reports it. -/
def lastSeat : SessionState :=
  { SessionState.fresh ((DecisionMaker.create ⟨1, 8⟩ .selfRelay ∅ false false).admitConnectionUp 3 (some 7)).1 10 with
      roster := OrdMap.empty.insert 3 7
      conditions := OrdMap.empty.insert 3 7
      presence := (SessionPresence.recordOwn (some (.setOrder none [.selfRelay, .peer 9])) 1).1 }

/-- The end of slot 3's link. -/
def lastLink : EndedLink := ⟨3, 7, 0, []⟩

/-- The race from its start. -/
def redialed (s : SessionState) (turns : List Turn) : Redial :=
  Pair.run EndSlotLink.next next ⟨s, .going (.deregister lastLink), .going (.register 3 8 true)⟩ turns

/-- A dial that takes the seat after the announcement, and gives it back before the roster is sampled. -/
theorem departure_survives_a_redial_refused :
    let w := redialed lastSeat (replicate 9 .first ++ [.second, .second] ++ replicate 8 .first)
    w.shared.seated 3 = false ∧
    (w.shared.maker.departed 3 = true ∨ w.shared.maker.leaveDecided 3 = true) ∧
    (w.shared.roster.size = 0 → ∀ p, w.shared.presence = some p → p.ownReport = some 0) := by
  intro w
  have hunseated : w.shared.seated 3 = false := by decide +kernel
  exact ⟨hunseated, departure_survives_a_redial lastSeat lastLink 8 true rfl (by decide +kernel) (.inr (by decide +kernel))
    (.inl (by decide +kernel)) _ (by decide +kernel) false rfl rfl hunseated⟩

/-- Three ends of slot 3's link. The dial has the seat when the announcement looks, and is refused
    afterwards: no departure. The dial has it when the roster is sampled, and is refused afterwards: one
    player is reported for an empty roster. The link published no conditions and slot 5 did: no
    departure. -/
theorem departure_is_lost_to_a_redial :
    let stoodDown := redialed lastSeat ([.first, .first, .second, .first, .second] ++ replicate 8 .first)
    let miscounted := redialed lastSeat (replicate 9 .first ++ [.second] ++ replicate 3 .first ++ [.second, .first])
    let unpublished := redialed { lastSeat with conditions := empty.insert 5 4 } (.second :: replicate 9 .first)
    (stoodDown.first = .done () ∧ stoodDown.second = .done false ∧ stoodDown.shared.seated 3 = false ∧
      stoodDown.shared.maker.departed 3 = false ∧ stoodDown.shared.maker.leaveDecided 3 = false) ∧
    (miscounted.first = .done () ∧ miscounted.second = .done false ∧ miscounted.shared.roster.size = 0 ∧
      miscounted.shared.presence.any (·.ownReport = some 1) = true) ∧
    (unpublished.first = .done () ∧ unpublished.second = .done false ∧ unpublished.shared.seated 3 = false ∧
      unpublished.shared.maker.departed 3 = false ∧ unpublished.shared.maker.leaveDecided 3 = false) :=
  ⟨⟨rfl, rfl, by decide +kernel, by decide +kernel, by decide +kernel⟩, ⟨rfl, rfl, by decide +kernel, by decide +kernel⟩,
    ⟨rfl, rfl, by decide +kernel, by decide +kernel, by decide +kernel⟩⟩

end RallyPoint.Relay
