import RallyPoint.Relay.Correctness.DropEffects

/-!
# `Relay.Correctness.Completion` — a home's answer against a reconnect

The authority acts on a home's proven count in steps: it checks that the answer is about the departure it
holds, stamps the count, claims the hold, decides. A reconnect of the slot takes the hold and the
departure in one transition. The claim is meant to decide between them, but the stamp records a departure
before it, without looking: when the reconnect comes in between the check and the stamp, the stamp makes
a departure of a connected slot and the lost claim leaves it there.

`reconnect_is_not_undone` is about the runs where the reconnect is resolved outside that window
(`Clear`).
-/

namespace RallyPoint.Relay

open Lib FinalizeResult SessionState DecisionMaker

/-- The slot is live again, on the generation observed. A peer without generations has no connection
    state. -/
structure Back (m : DecisionMaker) (slot : SlotId) (observed : Option Nat) : Prop where
  undeparted : m.departed slot = false
  undecided : m.leaveDecided slot = false
  live : (m.slots.get? slot).isSome = true
  up : m.connectionStates.get? slot = observed.map .up

namespace DecisionMaker

variable {m : DecisionMaker} {slot : SlotId} {observed : Option Nat}

/-- An admitted generation is the slot's current one. -/
theorem admitConnectionUp_up (h : (m.admitConnectionUp slot observed).2 = true) :
    (m.admitConnectionUp slot observed).1.connectionStates.get? slot = observed.map .up := by
  unfold admitConnectionUp at h ⊢
  split at h
  · cases h
  rename_i hopen
  rw [if_neg hopen]
  cases observed with
  | none => simpa using h
  | some epoch =>
    dsimp only at h ⊢
    unfold activateConnectionEpoch at h ⊢
    rw [if_neg hopen] at h ⊢
    split at h
    · cases h
    rename_i hfresh
    rw [if_neg hfresh]
    split at h
    · rename_i hup
      rw [if_pos hup]
      exact hup
    rename_i hup
    rw [if_neg hup]
    split at h
    · cases h
    rename_i hdown
    rw [if_neg hdown]
    simp

/-- **A departed slot that is admitted is back.** -/
theorem resolveReconnectWith_back {hold reinstated : Bool} (hd : m.departed slot = true)
    (h : (m.resolveReconnectWith slot observed hold).2.admission = .admitted reinstated) :
    Back (m.resolveReconnectWith slot observed hold).1 slot observed := by
  rcases resolveReconnectWith_cases (m := m) observed hold with ⟨-, hrejected, -⟩ | ⟨hu, -, hback, hadmitted, heq⟩
  · rw [hrejected] at h
    cases h
  rw [heq]
  have hrestored : m.restoredFor slot = (m.reinstateSlot slot).1 := by simp [restoredFor, hd]
  rw [hrestored] at hback hadmitted ⊢
  obtain ⟨hdepartures, hleaves, hslots⟩ :
      ((m.reinstateSlot slot).1.admitConnectionUp slot observed).1.departures = (m.reinstateSlot slot).1.departures ∧ _ :=
    admitConnectionUp_keeps observed
  obtain ⟨hkept, _⟩ : (m.reinstateSlot slot).1.leaveDecided slot = m.leaveDecided slot ∧ _ := reinstateSlot_frame
  obtain ⟨record, hrecord⟩ := Option.isSome_iff_exists.mp hd
  refine ⟨?_, ?_, ?_, admitConnectionUp_up hadmitted⟩
  · show (departures _ |>.get? slot).isSome = false
    rw [hdepartures]
    exact hback
  · show (decidedLeaves _ |>.get? slot).isSome = false
    rw [hleaves]
    exact hkept.trans hu
  · rw [hslots]
    simp [reinstateSlot, hu, hrecord]

end DecisionMaker

/-! ## The completion -/

def Complete.slot : Complete → SlotId
  | checkStale slot _ => slot
  | checkBasis slot _ => slot
  | stamp slot _ => slot
  | claim slot => slot
  | decide slot => slot

def FinalizeResult.slot : FinalizeResult → SlotId
  | isAuthority slot _ _ => slot
  | finalizedDropsEnabled slot _ _ => slot
  | departureEpoch slot _ _ => slot
  | complete point => point.slot

/-- The completion has not stamped its count, and will not notice that the departure is gone: it is past
    the check, or the answer names no generation. -/
def FinalizeResult.blind : FinalizeResult → Bool
  | isAuthority _ epoch _ => epoch.isNone
  | finalizedDropsEnabled _ epoch _ => epoch.isNone
  | departureEpoch _ epoch _ => epoch.isNone
  | complete (.checkStale _ _) => true
  | complete (.checkBasis _ _) => true
  | complete (.stamp _ _) => true
  | complete _ => false

variable {s : SessionState} {slot : SlotId} {observed : Option Nat} {point point' : FinalizeResult}

/-- A completion goes on with its slot, and decides only when it has just taken the hold away. -/
theorem Complete.next_going {point point' : Complete} (h : (point.next s).2 = .going point') :
    point'.slot = point.slot ∧ ∀ x, point'.role.decides = some x → (point.next s).1.isPending x = false := by
  cases point with
  | checkStale | checkBasis =>
    simp only [next] at h
    split at h <;> cases h
    exact ⟨rfl, by rintro _ ⟨⟩⟩
  | stamp slot count =>
    cases h
    exact ⟨rfl, by rintro _ ⟨⟩⟩
  | claim slot =>
    cases hlocked : s.holdsLocked with
    | true =>
      simp only [next, hlocked, if_true] at h
      cases h
      exact ⟨rfl, by rintro _ ⟨⟩⟩
    | false =>
      simp only [next, hlocked, Bool.false_eq_true, if_false] at h ⊢
      split at h <;> cases h
      refine ⟨rfl, fun x hx => ?_⟩
      obtain rfl : slot = x := by simpa [role, Role.decides] using hx
      simp [isPending, release, OrdMap.get?_erase]
  | decide slot => cases h

theorem FinalizeResult.next_going (h : (point.next s).2 = .going point') :
    point'.slot = point.slot ∧ ∀ x, point'.role.decides = some x → (point.next s).1.isPending x = false := by
  cases point with
  | isAuthority | finalizedDropsEnabled | departureEpoch =>
    simp only [next] at h
    split at h <;> cases h
    exact ⟨rfl, by rintro _ ⟨⟩⟩
  | complete point =>
    obtain ⟨q, hq, rfl⟩ := Progress.call_eq_going h
    exact Complete.next_going hq

/-- The completion will find the departure gone, or lose the claim. -/
def FinalizeResult.Spent (point : FinalizeResult) : Prop := point.blind = false ∧ point.role.decides = none

/-- **A spent completion does nothing to a slot that is back** without a hold it could take. -/
theorem FinalizeResult.Spent.next (h : point.Spent) (hback : Back s.maker point.slot observed)
    (hgone : s.holdsLocked = true ∨ s.isPending point.slot = false) :
    (point.next s).1.maker = s.maker ∧ (point.next s).1.holdsLocked = s.holdsLocked ∧
    (s.isPending point.slot = false → (point.next s).1.isPending point.slot = false) ∧
    ∀ point', (point.next s).2 = .going point' → point'.Spent := by
  obtain ⟨hblind, hdecides⟩ := h
  cases point with
  | isAuthority | finalizedDropsEnabled =>
    refine ⟨rfl, rfl, id, fun point' hp => ?_⟩
    simp only [next] at hp
    split at hp <;> cases hp
    exact ⟨hblind, rfl⟩
  | departureEpoch slot epoch count =>
    refine ⟨rfl, rfl, id, fun point' hp => ?_⟩
    -- the record is gone, and with it the generation the answer names
    have hnone : s.maker.departureEpoch slot = none := by
      have hd : (s.maker.departures.get? slot).isSome = false := hback.undeparted
      simp only [Option.isSome_eq_false_iff, Option.isNone_iff_eq_none] at hd
      simp [DecisionMaker.departureEpoch, hd]
    have hepoch : epoch ≠ none := by
      rintro rfl
      cases hblind
    simp [next, hnone, hepoch] at hp
  | complete point =>
    cases point with
    | checkStale | checkBasis | stamp => cases hblind
    | decide slot => cases hdecides
    | claim slot =>
      cases hlocked : s.holdsLocked with
      | true =>
        have hnext : next (.complete (.claim slot)) s = (s, .going (.complete (.claim slot))) := by
          simp [next, Complete.next, hlocked, Progress.call]
        rw [hnext]
        refine ⟨rfl, hlocked, id, fun point' hp => ?_⟩
        cases hp
        exact ⟨rfl, rfl⟩
      | false =>
        have hpending : s.isPending slot = false := hgone.resolve_left (by simp [hlocked])
        have hclaimed : (s.release slot).2 = false := hpending
        have hnext : next (.complete (.claim slot)) s = ((s.release slot).1, .done ()) := by
          simp [next, Complete.next, hlocked, hclaimed, Progress.call]
        rw [hnext]
        refine ⟨rfl, hlocked, fun _ => ?_, by rintro _ ⟨⟩⟩
        simp [isPending, release, FinalizeResult.slot, Complete.slot, OrdMap.get?_erase]

/-! ## The race -/

/-- The completion of a home's answer, and a reconnect. -/
abbrev Race := Pair SessionState FinalizeResult Reconnect Unit Reconnected

/-- The reconnect is about to be resolved. -/
def Race.resolving (w : Race) : Bool := w.second.at fun point => point.role.resolves.isSome

/-- **The condition on a run**: the reconnect is not resolved while the completion is about to stamp a
    departure it will not check again. -/
def Clear (w : Race) : Turn → Prop
  | .first => True
  | .second => w.resolving = true → w.shared.holdsLocked = false → w.first.at FinalizeResult.blind = false

instance (w : Race) : (t : Turn) → Decidable (Clear w t)
  | .first => .isTrue trivial
  | .second => inferInstanceAs (Decidable (_ → _ → _))

/-- Every point the completion stands at has the property. -/
def Race.All (w : Race) (P : FinalizeResult → Prop) : Prop := ∀ point, w.first = .going point → P point

/-- What holds of the race, by where the reconnect stands. -/
def Race.Sound (slot : SlotId) (observed : Option Nat) (w : Race) : Prop := w.All (·.slot = slot) ∧ match w.second with
  | .going (.resolve x o) => x = slot ∧ o = observed ∧ w.shared.maker.departed slot = true ∧
      w.All fun point => point.role.decides = some slot → w.shared.isPending slot = false
  | .going (.consume x transition hold) => x = slot ∧ ∀ reinstated, transition.admission = .admitted reinstated →
      (hold && transition.consumeHold) = true → Back w.shared.maker slot observed ∧
        w.shared.holdsLocked = true ∧ w.All (·.Spent)
  | .done (admission, taken) => ∀ reinstated, admission = .admitted reinstated → taken = true →
      Back w.shared.maker slot observed ∧ w.shared.isPending slot = false ∧ w.All (·.Spent)

theorem Race.Sound.first {second : Progress Reconnect Reconnected} (h : Sound slot observed ⟨s, .going point, second⟩) :
    Sound slot observed ⟨(point.next s).1, (point.next s).2, second⟩ := by
  obtain ⟨hslot, hsecond⟩ := h
  have hpoint : point.slot = slot := hslot point rfl
  refine ⟨fun point' hp => (next_going hp).1.trans hpoint, ?_⟩
  cases second with
  | going reconnect =>
    cases reconnect with
    | resolve x o =>
      obtain ⟨rfl, rfl, hdeparted, _⟩ := hsecond
      refine ⟨rfl, rfl, ?_, fun point' hp hd => (next_going hp).2 _ hd⟩
      rcases (point.guarantee s).departed _ hdeparted with hd | ⟨hresolves, _⟩
      · exact hd
      · -- a completion resolves nothing
        revert hresolves
        cases point with
        | complete point => cases point <;> simp [role, Complete.role, Role.resolves]
        | _ => simp [role, Role.resolves]
    | consume x transition hold =>
      obtain ⟨rfl, hsecond⟩ := hsecond
      refine ⟨rfl, fun reinstated hadmitted htaken => ?_⟩
      obtain ⟨hback, hlocked, hspent⟩ := hsecond reinstated hadmitted htaken
      obtain ⟨hmaker, hlock, _, hnext⟩ := (hspent point rfl).next (hpoint ▸ hback) (.inl hlocked)
      exact ⟨hmaker ▸ hback, hlock.trans hlocked, hnext⟩
  | done answer =>
    intro reinstated hadmitted htaken
    obtain ⟨hback, hnone, hspent⟩ := hsecond reinstated hadmitted htaken
    obtain ⟨hmaker, _, hpending, hnext⟩ := (hspent point rfl).next (hpoint ▸ hback) (.inr (hpoint ▸ hnone))
    exact ⟨hmaker ▸ hback, hpoint ▸ hpending (hpoint ▸ hnone), hnext⟩

theorem Race.Sound.second {first : Progress FinalizeResult Unit} {reconnect : Reconnect}
    (h : Sound slot observed ⟨s, first, .going reconnect⟩) (hok : Clear ⟨s, first, .going reconnect⟩ .second) :
    Sound slot observed ⟨(reconnect.next s).1, first, (reconnect.next s).2⟩ := by
  obtain ⟨hslot, hsecond⟩ := h
  refine ⟨hslot, ?_⟩
  cases reconnect with
  | resolve x o =>
    obtain ⟨rfl, rfl, hdeparted, hdeciding⟩ := hsecond
    cases hlocked : s.holdsLocked with
    | true =>
      have hnext : Reconnect.next (.resolve x o) s = (s, .going (.resolve x o)) := by simp [Reconnect.next, hlocked]
      rw [hnext]
      exact ⟨rfl, rfl, hdeparted, hdeciding⟩
    | false =>
      have hnext : Reconnect.next (.resolve x o) s =
          ({ s with maker := (s.maker.resolveReconnectWith x o (s.isPending x)).1, holdsLocked := true },
            .going (.consume x (s.maker.resolveReconnectWith x o (s.isPending x)).2 (s.isPending x))) := by
        simp [Reconnect.next, hlocked]
      rw [hnext]
      refine ⟨rfl, fun reinstated hadmitted htaken => ⟨resolveReconnectWith_back hdeparted hadmitted, rfl, ?_⟩⟩
      rintro point rfl
      have hblind : point.blind = false := hok rfl hlocked
      refine ⟨hblind, ?_⟩
      -- a completion about to decide has taken the hold
      cases hdecides : point.role.decides with
      | none => rfl
      | some y =>
        have hy : y = point.slot := by
          revert hdecides
          cases point with
          | complete point =>
            cases point <;> simp [role, Complete.role, Role.decides, FinalizeResult.slot, Complete.slot, eq_comm]
          | _ => simp [role, Role.decides]
        have hnone : s.isPending x = false :=
          hdeciding point rfl (hdecides.trans (congrArg some (hy.trans (hslot point rfl))))
        simp [hnone] at htaken
  | consume x transition hold =>
    obtain ⟨rfl, hsecond⟩ := hsecond
    simp only [Reconnect.next]
    intro reinstated hadmitted htaken
    obtain ⟨hback, _, hspent⟩ := hsecond reinstated hadmitted htaken
    rw [if_pos htaken]
    exact ⟨hback, by simp [isPending, release, OrdMap.get?_erase], hspent⟩

/-- **A reconnect that took the hold stays admitted**: when both have returned, the slot has no departure
    and no decided leave, its state is live and its connection is up; in every run that keeps the
    reconnect clear of the stamp. -/
theorem reconnect_is_not_undone (s : SessionState) (slot : SlotId) (epoch : Option Nat) (count : Nat) (observed : Option Nat)
    (hdeparted : s.maker.departed slot = true) (turns : List Turn)
    (hrun : Pair.Obeys FinalizeResult.next Reconnect.next Clear
      ⟨s, .going (.isAuthority slot epoch count), .going (.resolve slot observed)⟩ turns) :
    let w : Race := Pair.run next Reconnect.next
      ⟨s, .going (.isAuthority slot epoch count), .going (.resolve slot observed)⟩ turns
    ∀ reinstated, w.first = .done () → w.second = .done (.admitted reinstated, true) →
      w.shared.maker.departed slot = false ∧ w.shared.maker.leaveDecided slot = false ∧
      (w.shared.maker.slots.get? slot).isSome = true ∧ w.shared.maker.connectionStates.get? slot = observed.map .up := by
  intro w reinstated _ hsecond
  have hstart : Race.Sound slot observed ⟨s, .going (.isAuthority slot epoch count), .going (.resolve slot observed)⟩ := by
    refine ⟨fun point hp => ?_, rfl, rfl, hdeparted, fun point hp hd => ?_⟩ <;> cases hp
    · rfl
    · cases hd
  have hsound : Race.Sound slot observed w :=
    Pair.run_invariant (fun _ _ _ h _ => h.first) (fun _ _ _ h hok => h.second hok) hstart hrun
  have hback := hsound.2
  rw [hsecond] at hback
  obtain ⟨hback, _, _⟩ := hback reinstated rfl rfl
  exact ⟨hback.undeparted, hback.undecided, hback.live, hback.up⟩

/-- An authority that finalizes drops, with slot 3 dropped on generation 7. -/
def awaitingAnswer : SessionState :=
  (SessionState.fresh ((DecisionMaker.create ⟨1, 8⟩ .selfRelay ∅ true false).recordDepartureForEpoch 3
    { lastFrame := some 5 } leaveReasonDropped (some 7)).1 10).hold 3 0

/-- The slot comes back after the stamp and before the claim. -/
theorem reconnect_is_not_undone_stamped :
    let turns : List Turn := [.first, .first, .first, .first, .first, .first, .second, .first, .second, .first]
    let w : Race := Pair.run next Reconnect.next
      ⟨awaitingAnswer, .going (.isAuthority 3 (some 7) 40), .going (.resolve 3 (some 8))⟩ turns
    w.shared.maker.departed 3 = false ∧ w.shared.maker.leaveDecided 3 = false ∧
      (w.shared.maker.slots.get? 3).isSome = true ∧ w.shared.maker.connectionStates.get? 3 = some (.up 8) :=
  reconnect_is_not_undone awaitingAnswer 3 (some 7) 40 (some 8) (by decide +kernel) _ (by decide +kernel) true rfl rfl

/-- The slot comes back between the check and the stamp: it is connected and admitted, and departed. -/
theorem stamp_undoes_a_reconnect :
    let turns : List Turn := [.first, .first, .first, .first, .first, .second, .second, .first, .first]
    let w : Race := Pair.run next Reconnect.next
      ⟨awaitingAnswer, .going (.isAuthority 3 (some 7) 40), .going (.resolve 3 (some 8))⟩ turns
    awaitingAnswer.maker.departed 3 = true ∧ awaitingAnswer.isPending 3 = true ∧
    w.first = .done () ∧ w.second = .done (.admitted true, true) ∧
    w.shared.maker.connectionIsUp 3 = true ∧ w.shared.maker.departed 3 = true ∧ w.shared.maker.slots.get? 3 = none :=
  ⟨by decide +kernel, by decide +kernel, rfl, rfl, by decide +kernel, by decide +kernel, by decide +kernel⟩

end RallyPoint.Relay
