import RallyPoint.Relay.Session.Tasks
import RallyPoint.Relay.Correctness.Leaves

/-!
# `Relay.Correctness.DropEffects` — what one piece of a task does to a drop

Of a session, the drops of its slots are three sets: the slots with a departure, the slots with a decided
leave, the slots with a hold. Where a task stands says what it is about to do to them (`Role`): install a
hold, take one, release some, decide a leave. `Guarantee` is what a piece promises the other tasks in
these terms, and `DropTask.guarantee` that every piece of every task keeps it. Properties of all
interleavings follow from the promise alone.
-/

namespace RallyPoint.Relay

open Lib Lib.Trace List DecisionMaker OrdMap

/-! ## Roles -/

/-- What a task at a point is about to do to the drops. -/
inductive Role where
  | plain
  /-- It has the holds locked, and installs the hold of a departure it has recorded, if one is to be
      held. -/
  | installing (slot : Option SlotId)
  /-- It has the holds locked, and takes the hold of a slot it has resolved, if one is to be taken. -/
  | consuming (slot : Option SlotId)
  /-- It releases the holds of slots whose leave has just been decided. -/
  | releasing (slots : List SlotId)
  /-- It decides the leave of a slot whose hold it released, and which was there to claim if `claimed`. -/
  | deciding (slot : SlotId) (claimed : Bool)
  /-- It holds a drop once more. -/
  | holdingAgain (slot : SlotId)
  /-- It resolves a reconnect. -/
  | resolving (slot : SlotId)

namespace Role

/-- The holds are locked by a task of the role. -/
def holder : Role → Bool
  | installing _ => true
  | consuming _ => true
  | _ => false

def installs : Role → Option SlotId
  | installing slot => slot
  | _ => none

def consumes : Role → Option SlotId
  | consuming slot => slot
  | _ => none

def releases : Role → List SlotId
  | releasing slots => slots
  | _ => []

def decides : Role → Option SlotId
  | deciding slot _ => some slot
  | _ => none

/-- The slot whose claimed drop is decided next. -/
def claims : Role → Option SlotId
  | deciding slot true => some slot
  | _ => none

def holdsAgain : Role → Option SlotId
  | holdingAgain slot => some slot
  | _ => none

def resolves : Role → Option SlotId
  | resolving slot => some slot
  | _ => none

theorem holder_of_installs {r : Role} {x : SlotId} (h : r.installs = some x) : r.holder = true := by
  cases r <;> simp [installs, holder] at h ⊢

theorem holder_of_consumes {r : Role} {x : SlotId} (h : r.consumes = some x) : r.holder = true := by
  cases r <;> simp [consumes, holder] at h ⊢

theorem decides_of_claims {r : Role} {x : SlotId} (h : r.claims = some x) : r.decides = some x := by
  unfold claims at h
  split at h
  · exact h
  · cases h

end Role

/-- The role of a task: none once it has returned. -/
def roleOf {τ ρ : Type} (role : τ → Role) : Progress τ ρ → Role
  | .going point => role point
  | .done _ => .plain

/-! ### The roles of each operation -/

def Announce.role : Announce → Role
  | install d requested => .installing (if requested then some d.slot else none)
  | hold d => .holdingAgain d.slot
  | decide d => .deciding d.slot false
  | _ => .plain

def Reconnect.role : Reconnect → Role
  | resolve slot _ => .resolving slot
  | consume slot transition hold => .consuming (if hold && transition.consumeHold then some slot else none)

def HearLeave.role : HearLeave → Role
  | release slot => .releasing [slot]
  | _ => .plain

def FinalizeHome.role (_ : FinalizeHome) : Role := .plain

def Complete.role : Complete → Role
  | decide slot => .deciding slot true
  | _ => .plain

def Honor.role : Honor → Role
  | complete point => point.role
  | decide target => .deciding target true
  | _ => .plain

def FinalizeResult.role : FinalizeResult → Role
  | complete point => point.role
  | _ => .plain

def FinalizeEvicted.role : FinalizeEvicted → Role
  | complete point => point.role
  | _ => .plain

def DecideAbandoned.role : DecideAbandoned → Role
  | release slots => .releasing slots
  | _ => .plain

def DecidedDeparture.role (_ : DecidedDeparture) : Role := .plain

def DropTask.role : DropTask → Role
  | announce point => point.role
  | reconnect point => point.role
  | hearLeave point => point.role
  | honor point => point.role
  | finalizeResult point => point.role
  | finalizeEvicted point => point.role
  | abandoned point => point.role
  | gate point => point.role

/-! ## Departures and leaves of a maker -/

namespace DecisionMaker

variable {m m' : DecisionMaker} {slot : SlotId} {es : List MakerEvent}

/-- The leave an event decided. -/
def leaveOf : MakerEvent → Option LeaveDirective
  | .authored directive => some directive
  | .seeded directive => some directive
  | .heard leave => some leave
  | _ => none

/-- **A departure stands**: it is not discarded, and a slot that is off line with it stays so. -/
structure Stands (m m' : DecisionMaker) (slot : SlotId) : Prop where
  departed : m.departed slot = true → m'.departed slot = true
  down : m.departed slot = true → m.connectionIsUp slot = false → m'.connectionIsUp slot = false

theorem Stands.refl (m : DecisionMaker) (slot : SlotId) : Stands m m slot := ⟨id, fun _ h => h⟩

theorem Stands.trans {m₁ : DecisionMaker} (h : Stands m m₁ slot) (h' : Stands m₁ m' slot) : Stands m m' slot :=
  ⟨fun hd => h'.departed (h.departed hd), fun hd hdown => h'.down (h.departed hd) (h.down hd hdown)⟩

/-- A generation comes up only for a slot without a departure. -/
theorem Step.stands (hstep : Step m es m') (slot : SlotId) : Stands m m' slot ∨ .reinstated slot ∈ es := by
  cases hstep with
  | depart s stamps reason epoch =>
    refine .inl ⟨fun hd => ?_, fun _ hdown => hdown⟩
    show ((m.departures.insert s _).get? slot).isSome = true
    rw [departed_insert]
    simp [show (m.departures.get? slot).isSome = true from hd]
  | reinstate s departure _ _ =>
    by_cases hs : slot = s
    · right
      simp [hs]
    · refine .inl ⟨fun hd => ?_, fun _ hdown => hdown⟩
      show ((m.departures.erase s).get? slot).isSome = true
      rw [get?_erase, if_neg hs]
      exact hd
  | up s epoch hd =>
    refine .inl ⟨id, fun hdeparted hdown => ?_⟩
    have hs : slot ≠ s := by
      rintro rfl
      simp [hd] at hdeparted
    simpa [connectionIsUp, get?_insert, hs] using hdown
  | down s epoch =>
    refine .inl ⟨id, fun _ hdown => ?_⟩
    by_cases hs : slot = s
    · simp [connectionIsUp, hs]
    · simpa [connectionIsUp, get?_insert, hs] using hdown
  | _ => exact .inl ⟨id, fun _ hdown => hdown⟩

theorem Step.leave_decided_by (hstep : Step m es m') (h : m'.leaveDecided slot = true) :
    m.leaveDecided slot = true ∨ ∃ ev ∈ es, (leaveOf ev).any (SlotId.ofWire ·.slot = some slot) = true := by
  have hcache : ∀ (m : DecisionMaker) (s : SlotId) (d : LeaveDirective), SlotId.ofWire d.slot = some s →
      (m.cacheLeave s d).leaveDecided slot = true → m.leaveDecided slot = true ∨ SlotId.ofWire d.slot = some slot := by
    intro m s d hd h
    rw [leaveDecided_cacheLeave, Bool.or_eq_true, decide_eq_true_eq] at h
    rcases h with rfl | h
    · exact .inr hd
    · exact .inl h
  cases hstep with
  | commit s reason frame hu hd =>
    refine (hcache _ s _ (by simp [recordedLeave]) h).imp id fun hs => ?_
    exact ⟨_, mem_singleton_self _, by simpa [leaveOf, numbered] using hs⟩
  | seed d hu hd =>
    refine (hcache _ d.slot _ (by simp [seededLeave]) h).imp id fun hs => ?_
    exact ⟨_, mem_singleton_self _, by simpa [leaveOf, numbered] using hs⟩
  | adopt s leave hs hu hd =>
    refine (hcache _ s _ (by simpa using hs) h).imp id fun hs => ?_
    exact ⟨_, mem_singleton_self _, by simpa [leaveOf] using hs⟩
  | _ => exact .inl h

/-- A departure stands until its slot is reinstated. -/
theorem stands_of_steps (h : Steps Step m es m') (slot : SlotId) : Stands m m' slot ∨ .reinstated slot ∈ es := by
  refine h.keeps (I := fun m' log => Stands m m' slot ∨ .reinstated slot ∈ log) ?_ [] (.inl (.refl m slot))
  rintro m' log e m'' hstep (hstands | hlog)
  · exact (hstep.stands slot).imp hstands.trans (mem_append_right log)
  · exact .inr (mem_append_left e hlog)

theorem departed_of_steps (h : Steps Step m es m') (hd : m.departed slot = true) :
    m'.departed slot = true ∨ .reinstated slot ∈ es :=
  (stands_of_steps h slot).imp_left (·.departed hd)

/-- A leave is decided by an event of the slot. -/
theorem decided_of_steps (h : Steps Step m es m') (hd : m'.leaveDecided slot = true) :
    m.leaveDecided slot = true ∨ ∃ ev ∈ es, (leaveOf ev).any (SlotId.ofWire ·.slot = some slot) = true := by
  refine h.keeps (I := fun m' log => m'.leaveDecided slot = true → m.leaveDecided slot = true ∨
    ∃ ev ∈ log, (leaveOf ev).any (SlotId.ofWire ·.slot = some slot) = true) ?_ [] .inl hd
  intro m log e m' hstep hlog hd
  rcases hstep.leave_decided_by hd with hd | ⟨ev, hev, hslot⟩
  · exact (hlog hd).imp id fun ⟨ev, hev, hslot⟩ => ⟨ev, mem_append_left e hev, hslot⟩
  · exact .inr ⟨ev, mem_append_right log hev, hslot⟩

/-- **The departures stand, and no leave is decided.** -/
structure Quiet (m m' : DecisionMaker) : Prop where
  stands : ∀ slot, Stands m m' slot
  decided : ∀ slot, m'.leaveDecided slot = true → m.leaveDecided slot = true

theorem quiet_of_silent (h : Steps Step m [] m') : Quiet m m' :=
  ⟨fun s => (stands_of_steps h s).resolve_right (by simp), fun _ hd => (decided_of_steps h hd).resolve_right (by simp)⟩

theorem finishFinalize_quiet (reading : ForwardGateReading) : Quiet m (m.finishFinalize slot reading).1 := by
  have hsteps : Steps Step m _ (m.finishFinalize slot reading).1 := finishFinalize_steps reading
  refine ⟨fun s => (stands_of_steps hsteps s).resolve_right ?_,
    fun s hd => (decided_of_steps hsteps hd).resolve_right ?_⟩ <;>
    split <;> simp [leaveOf]

theorem recordOutcome_quiet (stamps : DepartureStamps) (reason : Nat) (epoch : Option Nat) :
    Quiet m (m.recordDepartureForEpochOutcome slot stamps reason epoch).1 := by
  refine quiet_of_silent ?_
  have hrecord : Steps Step m [] (m.recordDepartureForEpoch slot stamps reason epoch).1 :=
    recordDepartureForEpoch_steps stamps reason epoch
  unfold recordDepartureForEpochOutcome
  split
  · exact .single (.depart m slot stamps reason none)
  · split <;> rename_i heq <;> rw [heq] at hrecord <;> exact hrecord

/-- A generation taken as the departed one is down. -/
theorem markConnectionDown_down {epoch : Option Nat} (h : (m.markConnectionDown slot epoch).2 = true) :
    (m.markConnectionDown slot epoch).1.connectionIsUp slot = false := by
  unfold markConnectionDown at h ⊢
  dsimp only at h ⊢
  split <;> rename_i hstate
  · simp [connectionIsUp, hstate]
  · simp [connectionIsUp]
  · simp only [hstate] at h
    split at h
    · rename_i heq
      simp [connectionIsUp, heq]
    · cases h
  · simp [connectionIsUp, hstate]
  · simp [hstate] at h

/-- A departure that is taken as pending is one, of a slot that is off line, and is not decided. -/
theorem recordOutcome_pending {stamps : DepartureStamps} {reason : Nat} {epoch : Option Nat}
    (h : (m.recordDepartureForEpochOutcome slot stamps reason epoch).2 = .pending) :
    (m.recordDepartureForEpochOutcome slot stamps reason epoch).1.departed slot = true ∧
      (m.recordDepartureForEpochOutcome slot stamps reason epoch).1.connectionIsUp slot = false ∧
        m.leaveDecided slot = false := by
  unfold recordDepartureForEpochOutcome at h ⊢
  by_cases hu : m.leaveDecided slot = true
  · simp [hu] at h
  · simp only [hu, Bool.false_eq_true, if_false] at h ⊢
    unfold recordDepartureForEpoch at h ⊢
    rcases hdown : m.markConnectionDown slot epoch with ⟨m', _ | _⟩ <;> rw [hdown] at h
    · cases h
    · have hoff := markConnectionDown_down (congrArg Prod.snd hdown)
      rw [hdown] at hoff
      exact ⟨departed_noteDeparture _ _ _, hoff, by simp⟩

theorem decideLeave_stands (reason : Nat) (s : SlotId) : Stands m (m.decideLeave slot reason).1 s :=
  (stands_of_steps (decideLeave_steps reason) s).resolve_right (by simp)

theorem decideLeave_decided (reason : Nat) {s : SlotId} (h : (m.decideLeave slot reason).1.leaveDecided s = true) :
    m.leaveDecided s = true ∨ s = slot := by
  refine (decided_of_steps (decideLeave_steps reason) h).imp id ?_
  rintro ⟨ev, hev, hs⟩
  obtain ⟨d, hd, rfl⟩ := mem_map.mp hev
  obtain ⟨_, hslot, _⟩ := decideLeave_authored (Option.mem_toList.mp hd)
  simpa [leaveOf, hslot, eq_comm] using hs

theorem observeLeave_stands (leave : LeaveDirective) (s : SlotId) : Stands m (m.observeLeave leave).1 s := by
  refine (stands_of_steps (observeLeave_steps leave) s).resolve_right ?_
  split <;> simp

/-- A leave is decided only when the directive is taken as new, and then for its slot. -/
theorem observeLeave_decided (leave : LeaveDirective) {s : SlotId} (h : (m.observeLeave leave).1.leaveDecided s = true) :
    m.leaveDecided s = true ∨ SlotId.ofWire leave.slot = some s ∧ (m.observeLeave leave).2 = true := by
  rcases decided_of_steps (observeLeave_steps leave) h with h | ⟨ev, hev, hs⟩
  · exact .inl h
  · cases hslot : SlotId.ofWire leave.slot with
    | none => simp [hslot] at hev
    | some slot =>
      simp only [hslot, Option.isSome_some, if_true, mem_singleton] at hev
      subst hev
      obtain rfl : slot = s := by simpa [leaveOf, hslot] using hs
      cases hu : m.leaveDecided slot with
      | true => exact .inl rfl
      | false => exact .inr ⟨rfl, by simp [observeLeave, hslot, hu]⟩

variable {observed : Option Nat} {hold : Bool}

/-- An admission takes the hold there is, and a departed slot is admitted only with one. -/
theorem resolveReconnectWith_admitted {reinstated : Bool}
    (h : (m.resolveReconnectWith slot observed hold).2.admission = .admitted reinstated) :
    (m.resolveReconnectWith slot observed hold).2.consumeHold = hold ∧ (m.departed slot = true → hold = true) := by
  rcases resolveReconnectWith_cases (m := m) observed hold with ⟨-, hrejected, -⟩ | ⟨-, hheld, -, -, heq⟩
  · rw [hrejected] at h
    cases h
  · rw [heq]
    exact ⟨rfl, hheld⟩

theorem resolveReconnectWith_stands (s : SlotId) : Stands m (m.resolveReconnectWith slot observed hold).1 s ∨
    s = slot ∧ hold = true ∧ (m.resolveReconnectWith slot observed hold).2.consumeHold = true := by
  by_cases h : m.departed s = true
  swap
  · exact .inl ⟨fun hd => absurd hd h, fun hd => absurd hd h⟩
  refine (stands_of_steps (resolveReconnectWith_steps observed hold) s).imp id fun hmem => ?_
  split at hmem
  · rename_i hreinstates
    obtain rfl : s = slot := by simpa using hmem
    obtain ⟨reinstated, hadmission⟩ : ∃ r, (m.resolveReconnectWith s observed hold).2.admission = .admitted r := by
      revert hreinstates
      rcases (m.resolveReconnectWith s observed hold).2 with ⟨_ | _, _⟩ <;> simp [MakerReply.reinstates]
    obtain ⟨hconsume, hheld⟩ := resolveReconnectWith_admitted hadmission
    exact ⟨rfl, hheld h, hconsume.trans (hheld h)⟩
  · simp at hmem

theorem resolveReconnectWith_decided {s : SlotId}
    (h : (m.resolveReconnectWith slot observed hold).1.leaveDecided s = true) : m.leaveDecided s = true := by
  refine (decided_of_steps (resolveReconnectWith_steps observed hold) h).resolve_right ?_
  split <;> simp [leaveOf]

theorem decideAbandonedDepartures_steps (order : List SlotId) :
    Steps Step m (authoredEvents (m.decideAbandonedDepartures order).2) (m.decideAbandonedDepartures order).1 := by
  obtain ⟨fresh, heq, hsteps⟩ := foldl_authored (m := m) .authored (fun m (d : SlotId × Nat) => m.forceDecideLeave d.1 d.2)
    (fun m d => forceDecideLeave_steps d.2) (m.toDerive ∅ order) []
  have hfresh : (m.decideAbandonedDepartures order).2 = fresh := heq
  rw [hfresh]
  exact hsteps

theorem decideAbandonedDepartures_decided (order : List SlotId) {s : SlotId}
    (h : (m.decideAbandonedDepartures order).1.leaveDecided s = true) :
    m.leaveDecided s = true ∨ s ∈ (m.decideAbandonedDepartures order).2.filterMap (SlotId.ofWire ·.slot) := by
  refine (decided_of_steps (decideAbandonedDepartures_steps order) h).imp id ?_
  rintro ⟨ev, hev, hs⟩
  obtain ⟨d, hd, rfl⟩ := mem_map.mp hev
  exact mem_filterMap.mpr ⟨d, hd, by simpa [leaveOf] using hs⟩

end DecisionMaker

/-! ## Promises -/

/-- **What a piece promises**: it goes from role `r` and state `s` to role `r'` and state `s'`. -/
structure Guarantee (r : Role) (s s' : SessionState) (r' : Role) : Prop where
  mine : r.holder = true → s'.holdsLocked = r'.holder
  others : r.holder = false → r'.holder = false → s'.holdsLocked = s.holdsLocked
  takes : r.holder = false → r'.holder = true → s.holdsLocked = false ∧ s'.holdsLocked = true
  /-- A hold comes from a record, or from holding once more. -/
  held : ∀ x, s'.isPending x = true → s.isPending x = true ∨ r.installs = some x ∨
    r.holdsAgain = some x ∧ s.holdsLocked = false
  released : ∀ x ∈ r.releases, x ∈ r'.releases ∨ s.holdsLocked = false ∧ s'.isPending x = false
  consumed : ∀ x, r.consumes = some x → s'.isPending x = false
  /-- Only a reconnect clears a departure, and then it takes the hold. -/
  stands : ∀ x, Stands s.maker s'.maker x ∨
    r.resolves = some x ∧ s.holdsLocked = false ∧ s.isPending x = true ∧ r'.consumes = some x
  /-- A leave is decided by a task that decides it, or that releases its hold next. -/
  decided : ∀ x, s'.maker.leaveDecided x = true → s.maker.leaveDecided x = true ∨ r.decides = some x ∨ x ∈ r'.releases
  installed : ∀ x, r'.installs = some x →
    s'.maker.departed x = true ∧ s'.maker.connectionIsUp x = false ∧ s'.maker.leaveDecided x = false
  /-- A decision comes after a release, which leaves the maker as it is. -/
  coming : ∀ x, r'.decides = some x → s.holdsLocked = false ∧ s'.isPending x = false ∧ s'.maker = s.maker ∧
    (r'.claims = some x → s.isPending x = true)

/-- The task is not inside a transition it has the holds locked for. -/
structure Role.Outside (r : Role) : Prop where
  holder : r.holder = false
  installs : r.installs = none
  consumes : r.consumes = none

theorem Role.outside {r : Role} (h : r.holder = false) : r.Outside := by
  cases r with
  | installing => cases h
  | consuming => cases h
  | _ => exact ⟨rfl, rfl, rfl⟩

namespace Guarantee

variable {r r' : Role} {s s' : SessionState} {x : SlotId}

/-- A task that waits. -/
theorem wait (hr : r.holder = false) (hnone : r.decides = none) : Guarantee r s s r where
  mine := by simp [hr]
  others _ _ := rfl
  takes := by simp [hr]
  held _ h := .inl h
  released _ h := .inl h
  consumed := by simp [(Role.outside hr).consumes]
  stands x := .inl (.refl s.maker x)
  decided _ h := .inl h
  installed := by simp [(Role.outside hr).installs]
  coming := by simp [hnone]

/-- A piece that only reads. -/
theorem read : Guarantee .plain s s .plain := .wait rfl rfl

/-- A piece that takes the roster. -/
theorem lockRoster : Guarantee .plain s { s with rosterLocked := true } .plain :=
  ⟨nofun, fun _ _ => rfl, nofun, fun _ h => .inl h, nofun, nofun, fun x => .inl (.refl s.maker x), fun _ h => .inl h,
    nofun, nofun⟩

/-- A piece that leaves the holds alone. -/
theorem onMaker {m : DecisionMaker} (hr : r.holder = false) (hreleases : r.releases = []) (hr' : r'.holder = false)
    (hnone : r'.decides = none) (hstands : ∀ x, Stands s.maker m x)
    (hdecided : ∀ x, m.leaveDecided x = true → s.maker.leaveDecided x = true ∨ r.decides = some x ∨ x ∈ r'.releases) :
    Guarantee r s (s.withMaker m) r' where
  mine := by simp [hr]
  others _ _ := rfl
  takes := by simp [hr']
  held _ h := .inl h
  released := by simp [hreleases]
  consumed := by simp [(Role.outside hr).consumes]
  stands x := .inl (hstands x)
  decided := hdecided
  installed := by simp [(Role.outside hr').installs]
  coming := by simp [hnone]

/-- A piece that touches neither the holds nor the drops of the maker. -/
theorem quiet {m : DecisionMaker} (hquiet : DecisionMaker.Quiet s.maker m) : Guarantee .plain s (s.withMaker m) .plain :=
  onMaker rfl rfl rfl rfl hquiet.stands fun x h => .inl (hquiet.decided x h)

/-- A piece that takes one hold away while the holds are free. -/
theorem release (hr : r.holder = false) (hr' : r'.holder = false) (hfree : s.holdsLocked = false)
    (hreleases : ∀ y ∈ r.releases, y = x ∨ y ∈ r'.releases)
    (hcoming : ∀ y, r'.decides = some y → y = x ∧ (r'.claims = some y → s.isPending y = true)) :
    Guarantee r s (s.release x).1 r' where
  mine := by simp [hr]
  others _ _ := rfl
  takes := by simp [hr']
  held y h := by
    simp only [SessionState.isPending, SessionState.release, get?_erase] at h ⊢
    split at h
    · cases h
    · exact .inl h
  released y hy := by
    rcases hreleases y hy with rfl | hy
    · exact .inr ⟨hfree, by simp [SessionState.isPending, SessionState.release, get?_erase]⟩
    · exact .inl hy
  consumed := by simp [(Role.outside hr).consumes]
  stands y := .inl (.refl s.maker y)
  decided _ h := .inl h
  installed := by simp [(Role.outside hr').installs]
  coming y hy := by
    obtain ⟨rfl, hclaimed⟩ := hcoming y hy
    exact ⟨hfree, by simp [SessionState.isPending, SessionState.release, get?_erase], rfl, hclaimed⟩

/-- A piece that decides the leave of a slot. -/
theorem decides {slot : SlotId} {claimed : Bool} (reason : Nat) :
    Guarantee (.deciding slot claimed) s (s.withMaker (s.maker.decideLeave slot reason).1) .plain := by
  refine .onMaker rfl rfl rfl rfl (decideLeave_stands reason) fun x h => ?_
  rcases decideLeave_decided reason h with h | rfl
  · exact .inl h
  · exact .inr (.inl rfl)

/-- A piece that waits until the holds are free. -/
theorem awaits {τ ρ : Type} {role : τ → Role} {point : τ} {moved : SessionState × Progress τ ρ}
    (hr : (role point).holder = false) (hnone : (role point).decides = none)
    (h : s.holdsLocked = false → Guarantee (role point) s moved.1 (roleOf role moved.2)) :
    Guarantee (role point) s (if s.holdsLocked then (s, .going point) else moved).1
      (roleOf role (if s.holdsLocked then (s, .going point) else moved).2) := by
  cases hlocked : s.holdsLocked with
  | true => exact .wait hr hnone
  | false => exact h hlocked

/-- The role of a callee is that of its caller. -/
theorem call {τ τ' ρ ρ' : Type} {role : τ → Role} {role' : τ' → Role} (within : τ → τ') (after : ρ → Progress τ' ρ')
    (hwithin : ∀ point, role' (within point) = role point) (hafter : ∀ result, roleOf role' (after result) = .plain)
    {progress : Progress τ ρ} (h : Guarantee r s s' (roleOf role progress)) :
    Guarantee r s s' (roleOf role' (progress.call within after)) := by
  cases progress with
  | going point =>
    show Guarantee r s s' (role' (within point))
    rw [hwithin]
    exact h
  | done result =>
    show Guarantee r s s' (roleOf role' (after result))
    rw [hafter]
    exact h

/-- A task that claims a hold decides its drop next; without a hold it goes on to `r'`. -/
theorem claim {slot : SlotId} (hr : r.holder = false) (hreleases : r.releases = []) (hfree : s.holdsLocked = false)
    (hr' : r' = if s.isPending slot then .deciding slot true else .plain) : Guarantee r s (s.release slot).1 r' := by
  subst hr'
  refine .release hr ?_ hfree (by simp [hreleases]) fun y hy => ?_
  · split <;> rfl
  · split at hy
    · rename_i hpending
      obtain rfl : slot = y := by simpa [Role.decides] using hy
      exact ⟨rfl, fun _ => hpending⟩
    · cases hy

/-- Only a reconnect discards a departure. -/
theorem departed (h : Guarantee r s s' r') (x : SlotId) (hx : s.maker.departed x = true) :
    s'.maker.departed x = true ∨ r.resolves = some x ∧ s.holdsLocked = false :=
  (h.stands x).imp (·.departed hx) fun hresolves => ⟨hresolves.1, hresolves.2.1⟩

end Guarantee

/-! ## The promises of each operation -/

variable (s : SessionState)

theorem pending_hold {s : SessionState} {slot x : SlotId} {since : Nat} (h : (s.hold slot since).isPending x = true) :
    s.isPending x = true ∨ x = slot := by
  unfold SessionState.hold at h
  split at h
  · exact .inl h
  · simp only [SessionState.isPending, get?_insert] at h
    split at h
    · exact .inr ‹_›
    · exact .inl h

theorem hold_maker (slot : SlotId) (since : Nat) :
    (s.hold slot since).maker = s.maker ∧ (s.hold slot since).holdsLocked = s.holdsLocked := by
  unfold SessionState.hold
  split <;> exact ⟨rfl, rfl⟩

theorem Departing.leave_eq (d : Departing) :
    (d.leave s).holds = s.holds ∧ (d.leave s).holdsLocked = s.holdsLocked ∧ (d.leave s).maker = s.maker := by
  unfold Departing.leave
  split <;> exact ⟨rfl, rfl, rfl⟩

/-- Recording a drop: the holds are taken, and the hold to install names an undecided departure. -/
theorem Guarantee.record {s : SessionState} (hfree : s.holdsLocked = false) (d : Departing) (stamps : DepartureStamps) :
    let recorded := s.maker.recordDepartureForEpochOutcome d.slot stamps d.reason d.epoch
    Guarantee (Announce.record d stamps).role s { s with maker := recorded.1, holdsLocked := true }
      (Announce.install d (decide (recorded.2 = .pending))).role := by
  intro recorded
  have hquiet : DecisionMaker.Quiet s.maker recorded.1 := recordOutcome_quiet stamps d.reason d.epoch
  refine ⟨nofun, nofun, fun _ _ => ⟨hfree, rfl⟩, fun _ h => .inl h, nofun, nofun, fun x => .inl (hquiet.stands x),
    fun x h => .inl (hquiet.decided x h), fun x hx => ?_, nofun⟩
  by_cases hpending : recorded.2 = .pending
  · obtain rfl : d.slot = x := by simpa [Announce.role, Role.installs, hpending] using hx
    obtain ⟨hdeparted, hdown, hundecided⟩ := recordOutcome_pending hpending
    refine ⟨hdeparted, hdown, ?_⟩
    cases hd : recorded.1.leaveDecided d.slot with
    | false => rfl
    | true => exact absurd (hquiet.decided d.slot hd) (by simp [hundecided])
  · simp [Announce.role, Role.installs, hpending] at hx

/-- Installing the hold of a recorded departure, or not, gives the holds back. -/
theorem Guarantee.install (d : Departing) (requested : Bool) :
    Guarantee (Announce.install d requested).role s (Announce.next (.install d requested) s).1
      (roleOf Announce.role (Announce.next (.install d requested) s).2) := by
  cases requested with
  | true =>
    obtain ⟨hmaker, hlock⟩ := hold_maker { s with holdsLocked := false } d.slot d.since
    refine ⟨fun _ => hlock, nofun, nofun, fun x h => ?_, nofun, nofun, fun x => .inl ?_, fun x h => .inl ?_, nofun, nofun⟩
    · rcases pending_hold h with h | rfl
      · exact .inl h
      · exact .inr (.inl rfl)
    · show Stands s.maker (SessionState.hold _ d.slot d.since).maker x
      rw [hmaker]
      exact .refl s.maker x
    · have h' : (SessionState.hold _ d.slot d.since).maker.leaveDecided x = true := h
      rw [hmaker] at h'
      exact h'
  | false =>
    obtain ⟨hholds, hlock, hmaker⟩ := d.leave_eq { s with holdsLocked := false }
    have hnext : Announce.next (.install d false) s = (d.leave { s with holdsLocked := false }, .done false) := rfl
    rw [hnext]
    refine ⟨fun _ => hlock, nofun, nofun, fun x h => .inl ?_, nofun, nofun, fun x => .inl ?_,
      fun x h => .inl ?_, nofun, nofun⟩
    · simpa [SessionState.isPending, hholds] using h
    · rw [hmaker]; exact .refl s.maker x
    · rw [hmaker] at h; exact h

/-- Holding a drop once more. -/
theorem Guarantee.holdAgain {s : SessionState} (hfree : s.holdsLocked = false) (d : Departing) :
    Guarantee (Announce.hold d).role s (d.leave (s.hold d.slot d.since)) .plain := by
  obtain ⟨hholds, hlock, hmaker⟩ := d.leave_eq (s.hold d.slot d.since)
  obtain ⟨hmaker', hlock'⟩ := hold_maker s d.slot d.since
  refine ⟨nofun, fun _ _ => hlock.trans hlock', nofun, fun x h => ?_, nofun, nofun,
    fun x => .inl ?_, fun x h => .inl ?_, nofun, nofun⟩
  · have hpending : (s.hold d.slot d.since).isPending x = true := by simpa [SessionState.isPending, hholds] using h
    rcases pending_hold hpending with h | rfl
    · exact .inl h
    · exact .inr (.inr ⟨rfl, hfree⟩)
  · rw [hmaker, hmaker']; exact .refl s.maker x
  · rw [hmaker, hmaker'] at h; exact h

theorem Announce.guarantee (point : Announce) : Guarantee point.role s (point.next s).1 (roleOf role (point.next s).2) := by
  cases point with
  | checkSeat d count =>
    simp only [next]
    repeat' split
    all_goals first | exact .read | exact .lockRoster
  | slotFrame | reachableFrame | resultFor | accept => exact .read
  | record d stamps =>
    by_cases hdropped : d.reason = leaveReasonDropped
    · simp only [next, hdropped, if_true]
      exact .awaits rfl rfl fun hfree => hdropped ▸ .record hfree d stamps
    · have hquiet : DecisionMaker.Quiet s.maker (s.maker.recordDepartureForEpochOutcome d.slot stamps d.reason d.epoch).1 :=
        recordOutcome_quiet stamps d.reason d.epoch
      simp only [next, hdropped, if_false]
      split <;> exact .quiet hquiet
  | install d requested => exact .install s d requested
  | hold d => exact .awaits rfl rfl fun hfree => .holdAgain hfree d
  | supersede d =>
    refine .awaits rfl rfl fun hfree => .release rfl rfl hfree (by simp [role, Role.releases]) fun y hy => ?_
    exact ⟨(by simpa [roleOf, role, Role.decides] using hy.symm), nofun⟩
  | decide d => exact .decides d.reason

theorem Reconnect.guarantee (point : Reconnect) :
    Guarantee point.role s (point.next s).1 (roleOf role (point.next s).2) := by
  cases point with
  | resolve slot observed =>
    simp only [next]
    refine .awaits rfl rfl fun hfree => ?_
    refine ⟨nofun, nofun, fun _ _ => ⟨hfree, rfl⟩, fun _ h => .inl h, nofun, nofun, fun x => ?_,
      fun x h => .inl (resolveReconnectWith_decided h), nofun, nofun⟩
    refine (resolveReconnectWith_stands x).imp id ?_
    rintro ⟨rfl, hhold, hconsume⟩
    rw [hhold] at hconsume
    exact ⟨rfl, hfree, hhold, by simp [roleOf, role, Role.consumes, hhold, hconsume]⟩
  | consume slot transition hold =>
    cases htaken : hold && transition.consumeHold with
    | true =>
      simp only [next, role, htaken, if_true]
      refine ⟨fun _ => rfl, nofun, nofun, fun x h => .inl ?_, nofun, fun x hx => ?_, fun x => .inl (.refl s.maker x),
        fun _ h => .inl h, nofun, nofun⟩
      · simp only [SessionState.isPending, SessionState.release, get?_erase] at h ⊢
        split at h
        · cases h
        · exact h
      · obtain rfl : slot = x := by simpa [Role.consumes] using hx
        simp [SessionState.isPending, SessionState.release, get?_erase]
    | false =>
      simp only [next, role, htaken, Bool.false_eq_true, if_false]
      exact ⟨fun _ => rfl, nofun, nofun, fun x h => .inl h, nofun, nofun, fun x => .inl (.refl s.maker x), fun _ h => .inl h,
        nofun, nofun⟩

theorem HearLeave.guarantee (point : HearLeave) :
    Guarantee point.role s (point.next s).1 (roleOf role (point.next s).2) := by
  cases point with
  | normalize leave =>
    simp only [next]
    split <;> exact .read
  | observe leave =>
    refine .onMaker rfl rfl ?_ ?_ (observeLeave_stands leave) (fun x h => ?_)
    iterate 2
      · simp only [next]
        repeat' split
        all_goals rfl
    · rcases observeLeave_decided leave h with h | ⟨hslot, haccepted⟩
      · exact .inl h
      · exact .inr (.inr (by simp [next, hslot, haccepted, roleOf, role, Role.releases]))
  | release slot => exact .awaits rfl rfl fun hfree => .release rfl rfl hfree (by simp [role, Role.releases]) nofun

theorem FinalizeHome.guarantee (point : FinalizeHome) :
    Guarantee point.role s (point.next s).1 (roleOf role (point.next s).2) := by
  cases point with
  | sealDrop slot epoch =>
    have hquiet : DecisionMaker.Quiet s.maker (s.maker.sealForFinalize slot epoch).1 :=
      quiet_of_silent (sealForFinalize_steps epoch)
    simp only [next]
    split <;> exact .quiet hquiet
  | readGate slot => exact .read
  | finish slot reading => exact .quiet (finishFinalize_quiet reading)

theorem Complete.guarantee (point : Complete) : Guarantee point.role s (point.next s).1 (roleOf role (point.next s).2) := by
  cases point with
  | checkStale | checkBasis =>
    simp only [next]
    split <;> exact .read
  | stamp slot count =>
    exact .quiet (quiet_of_silent (.single (.depart _ _ _ _ _)))
  | claim slot =>
    refine .awaits rfl rfl fun hfree => .claim rfl rfl hfree ?_
    show roleOf role (if s.isPending slot then .going (decide slot) else .done ()) = _
    split <;> rfl
  | decide slot => exact .decides leaveReasonDropped

theorem Honor.guarantee (point : Honor) : Guarantee point.role s (point.next s).1 (roleOf role (point.next s).2) := by
  cases point with
  | isAuthority | finalizedDropsEnabled | strictlyHomes | heldFor =>
    simp only [next]
    repeat' split
    all_goals exact .read
  | askHome | departureEpoch => exact .read
  | finalize target point =>
    refine Guarantee.call (finalize target) _ (fun _ => rfl) (fun outcome => ?_) (point.guarantee s)
    cases outcome <;> rfl
  | complete point => exact Guarantee.call complete _ (fun _ => rfl) (fun _ => rfl) (point.guarantee s)
  | claim target =>
    refine .awaits rfl rfl fun hfree => .claim rfl rfl hfree ?_
    show roleOf role (if s.isPending target then .going (decide target) else .done ()) = _
    split <;> rfl
  | decide target => exact .decides leaveReasonDropped

theorem FinalizeResult.guarantee (point : FinalizeResult) :
    Guarantee point.role s (point.next s).1 (roleOf role (point.next s).2) := by
  cases point with
  | isAuthority | finalizedDropsEnabled | departureEpoch =>
    simp only [next]
    split <;> exact .read
  | complete point => exact Guarantee.call complete _ (fun _ => rfl) (fun _ => rfl) (point.guarantee s)

theorem FinalizeEvicted.guarantee (point : FinalizeEvicted) :
    Guarantee point.role s (point.next s).1 (roleOf role (point.next s).2) := by
  cases point with
  | eviction | finalizedDropsEnabled | strictlyHomes | hasDeparture | isAuthority =>
    simp only [next]
    repeat' split
    all_goals exact .read
  | departureEpoch slot => exact .read
  | finalize slot point =>
    exact Guarantee.call (finalize slot) _ (fun _ => rfl) (fun _ => rfl) (point.guarantee s)
  | complete point => exact Guarantee.call complete _ (fun _ => rfl) (fun _ => rfl) (point.guarantee s)

theorem DecideAbandoned.guarantee (point : DecideAbandoned) :
    Guarantee point.role s (point.next s).1 (roleOf role (point.next s).2) := by
  cases point with
  | sample | allEmpty =>
    simp only [next]
    repeat' split
    all_goals exact .read
  | decide order =>
    refine .onMaker rfl rfl rfl rfl (fun x => ?_) fun x h => ?_
    · exact (stands_of_steps (decideAbandonedDepartures_steps order) x).resolve_right (by simp)
    · exact (decideAbandonedDepartures_decided order h).imp id .inr
  | release slots =>
    cases slots with
    | nil => exact .onMaker rfl rfl rfl rfl (.refl s.maker) fun _ h => .inl h
    | cons slot slots =>
      exact .awaits rfl rfl fun hfree => .release rfl rfl hfree (by simp [roleOf, role, Role.releases]) nofun

theorem DecidedDeparture.guarantee (point : DecidedDeparture) :
    Guarantee point.role s (point.next s).1 (roleOf role (point.next s).2) := by
  cases point with
  | hasDeparture slot => exact .read
  | isPending slot departed =>
    simp only [next]
    split <;> exact .read

/-! ## The promises of all tasks -/

/-- **Every piece of every task keeps its promise.** -/
theorem DropTask.guarantee (task : DropTask) : Guarantee task.role s (task.next s).1 (roleOf role (task.next s).2) := by
  cases task with
  | announce point => exact Guarantee.call announce _ (fun _ => rfl) (fun _ => rfl) (point.guarantee s)
  | reconnect point => exact Guarantee.call reconnect _ (fun _ => rfl) (fun _ => rfl) (point.guarantee s)
  | hearLeave point => exact Guarantee.call hearLeave _ (fun _ => rfl) (fun _ => rfl) (point.guarantee s)
  | honor point => exact Guarantee.call honor _ (fun _ => rfl) (fun _ => rfl) (point.guarantee s)
  | finalizeResult point => exact Guarantee.call finalizeResult _ (fun _ => rfl) (fun _ => rfl) (point.guarantee s)
  | finalizeEvicted point => exact Guarantee.call finalizeEvicted _ (fun _ => rfl) (fun _ => rfl) (point.guarantee s)
  | abandoned point => exact Guarantee.call abandoned _ (fun _ => rfl) (fun _ => rfl) (point.guarantee s)
  | gate point => exact Guarantee.call gate _ (fun _ => rfl) (fun _ => rfl) (point.guarantee s)

/-- A task has the holds locked. -/
def DropTask.locksHolds (task : DropTask) : Bool := task.role.holder

theorem DropTask.at_locksHolds (progress : Progress DropTask DropAnswer) :
    progress.at locksHolds = (roleOf role progress).holder := by
  cases progress <;> rfl

/-- The holds' lock is respected. -/
theorem DropTask.guards : World.Guards next SessionState.holdsLocked locksHolds where
  mine task s h := by
    rw [at_locksHolds]
    exact (task.guarantee s).mine h
  others task s h h' := by
    rw [at_locksHolds] at h'
    exact (task.guarantee s).others h h'
  takes task s h h' := by
    rw [at_locksHolds] at h'
    exact (task.guarantee s).takes h h'

/-- No operation begins in the middle of a transition. -/
theorem DropTask.role_of_isEntry {task : DropTask} (h : task.isEntry = true) :
    task.role.Outside ∧ task.role.decides = none := by
  unfold isEntry at h
  split at h <;> first | exact ⟨⟨rfl, rfl, rfl⟩, rfl⟩ | cases h

end RallyPoint.Relay
