import Mathlib.Logic.Function.Basic

/-!
# `Coordinator.Attest` — shared attestation rounds

The model of `shared_round` and of the round map in `coordinator/src/attest/mod.rs`, for one key of the
map. A step is one critical section of the map's lock, or one look at the watch of a round; calls
interleave step by step, and a call may be cancelled where it awaits. A leader's entry is removed by key
twice, when it publishes and when its handle is dropped: what came in between goes too.
-/

namespace RallyPoint.Coordinator

/-- An outcome, and the instant taken before any relay was asked for it. -/
structure AttestRound (α : Type) where
  startedBeforeAnyRequest : Nat
  outcome : α

/-- Where a call of `shared_round` stands. A call leads at most one round. -/
inductive RoundCall (α : Type) where
  /-- Not made yet. -/
  | absent
  /-- At the top of the loop, with `asked_at`. -/
  | looping (askedAt : Nat)
  /-- `RoundEntry::Leader`: in `run_round`. -/
  | leading
  /-- `publish` has removed the entry and has yet to send. -/
  | retired (round : AttestRound α)
  /-- `publish` is over, the handle not yet dropped. -/
  | published (round : AttestRound α)
  /-- `RoundEntry::Joined`: in `joined_round`, on the watch of a leader. -/
  | joined (askedAt leader : Nat)
  /-- Returned with the round it ran. -/
  | led (round : AttestRound α)
  /-- Returned with the round of a leader. -/
  | received (askedAt leader : Nat) (round : AttestRound α)
  | cancelled

namespace RoundCall

variable {α : Type}

/-- What the watch of the call's round shows. -/
def watched : RoundCall α → Option (AttestRound α)
  | published round | led round => some round
  | _ => none

/-- The sender of the call's round is gone. -/
def closed : RoundCall α → Bool
  | led _ | cancelled => true
  | _ => false

/-- The call's round is published and its handle not dropped. -/
def retiring : RoundCall α → Bool
  | retired _ | published _ => true
  | _ => false

end RoundCall

def roundAnswersRead (roundStarted askedAt : Nat) : Bool := askedAt < roundStarted

/-- The calls, and the leader whose watch is in the map. -/
structure RoundMap (α : Type) where
  calls : Nat → RoundCall α
  entry : Option Nat

namespace RoundMap

variable {α : Type} {s s' : RoundMap α} {id : Nat} {call : RoundCall α} {entry : Option Nat}

def new : RoundMap α := ⟨fun _ => .absent, none⟩

def put (s : RoundMap α) (id : Nat) (call : RoundCall α) (entry : Option Nat) : RoundMap α :=
  ⟨Function.update s.calls id call, entry⟩

theorem calls_put_self : (s.put id call entry).calls id = call := Function.update_self ..

variable {id' : Nat}

theorem calls_put_of_ne (hne : id' ≠ id) : (s.put id call entry).calls id' = s.calls id' := Function.update_of_ne hne ..

/-- One step of one call. -/
inductive Step (s : RoundMap α) : RoundMap α → Prop where
  | arrive (id now : Nat) (hid : s.calls id = .absent) : Step s (s.put id (.looping now) s.entry)
  /-- `begin_round` finds an entry. -/
  | join (id : Nat) {askedAt leader : Nat} (hid : s.calls id = .looping askedAt) (hentry : s.entry = some leader) :
      Step s (s.put id (.joined askedAt leader) s.entry)
  /-- `begin_round` finds none. -/
  | lead (id : Nat) {askedAt : Nat} (hid : s.calls id = .looping askedAt) (hentry : s.entry = none) :
      Step s (s.put id .leading (some id))
  /-- `run_round` is over, and `publish` removes the entry. -/
  | publish (id : Nat) (round : AttestRound α) (hid : s.calls id = .leading) : Step s (s.put id (.retired round) none)
  | send (id : Nat) {round : AttestRound α} (hid : s.calls id = .retired round) :
      Step s (s.put id (.published round) s.entry)
  /-- `Drop` removes the entry, and the call returns. -/
  | drop (id : Nat) {round : AttestRound α} (hid : s.calls id = .published round) : Step s (s.put id (.led round) none)
  /-- A joiner sees an outcome. -/
  | look (id : Nat) {askedAt leader : Nat} {round : AttestRound α} (hid : s.calls id = .joined askedAt leader)
      (hwatched : (s.calls leader).watched = some round) :
      Step s (s.put id
        (if roundAnswersRead round.startedBeforeAnyRequest askedAt then .received askedAt leader round
          else .looping askedAt) s.entry)
  /-- The leader has left without an outcome. -/
  | again (id : Nat) {askedAt leader : Nat} (hid : s.calls id = .joined askedAt leader)
      (hwatched : (s.calls leader).watched = none)
      (hclosed : (s.calls leader).closed = true) : Step s (s.put id (.looping askedAt) s.entry)
  /-- The handle of a leader that is cancelled is dropped. -/
  | cancelLeader (id : Nat) (hid : s.calls id = .leading) : Step s (s.put id .cancelled none)
  | cancelJoiner (id : Nat) {askedAt leader : Nat} (hid : s.calls id = .joined askedAt leader) :
      Step s (s.put id .cancelled s.entry)

/-- The states that steps lead to, each of them under the condition `ok`. -/
inductive Run (ok : RoundMap α → RoundMap α → Prop) : RoundMap α → Prop where
  | new : Run ok new
  | step {s s' : RoundMap α} (h : Run ok s) (hok : ok s s') (hstep : Step s s') : Run ok s'

/-- A call that has taken a leader's round asked before that started. -/
def Answered : RoundCall α → Prop
  | .received askedAt _ round => askedAt < round.startedBeforeAnyRequest
  | _ => True

theorem Run.answered {ok : RoundMap α → RoundMap α → Prop} (h : Run ok s) : ∀ id, Answered (s.calls id) := by
  induction h with
  | new => exact fun _ => trivial
  | @step s _ _ _ hstep ih =>
    have hput : ∀ {id : Nat} {call : RoundCall α} {entry : Option Nat}, Answered call → ∀ id',
      Answered ((s.put id call entry).calls id') := by
      intro id call entry hcall id'
      rcases eq_or_ne id' id with rfl | hne
      · rwa [calls_put_self]
      · rw [calls_put_of_ne hne]
        exact ih id'
    cases hstep with
    | @look id askedAt leader round hid hwatched =>
      refine hput ?_
      split
      · rename_i hanswers
        have hlt : askedAt < round.startedBeforeAnyRequest := of_decide_eq_true hanswers
        exact hlt
      · trivial
    | _ => exact hput trivial

/-- **One round at most runs, and its entry is in the map.** None runs while a handle is to be dropped. -/
structure Single (s : RoundMap α) : Prop where
  entry : ∀ id, s.calls id = .leading → s.entry = some id
  alone : ∀ id, (s.calls id).retiring = true → ∀ id', s.calls id' ≠ .leading

/-- No round begins while a leader that has published still holds its handle. -/
def Unraced (s s' : RoundMap α) : Prop := s.entry = none → s'.entry.isSome → ∀ id, (s.calls id).retiring = false

/-- Another call leads after a step of this one only if it did before. -/
theorem leading_put (hcall : call ≠ .leading) (h : (s.put id call entry).calls id' = .leading) :
    id' ≠ id ∧ s.calls id' = .leading := by
  rcases eq_or_ne id' id with rfl | hne
  · exact absurd (calls_put_self.symm.trans h) hcall
  · exact ⟨hne, (calls_put_of_ne hne).symm.trans h⟩

/-- No call leads after a step of the one that did. -/
theorem Single.of_none (hcall : call ≠ .leading) (h : ∀ id', id' ≠ id → s.calls id' ≠ .leading) :
    (s.put id call entry).Single := by
  have hnone : ∀ id', (s.put id call entry).calls id' ≠ .leading :=
    fun id' hid' => h id' (leading_put hcall hid').1 (leading_put hcall hid').2
  exact ⟨fun id' hid' => absurd hid' (hnone id'), fun _ _ => hnone⟩

namespace Single

/-- A call that has no round of its own goes on. -/
theorem put (h : s.Single) (hcall : call ≠ .leading) (hretiring : call.retiring = false) :
    (s.put id call s.entry).Single := by
  refine ⟨fun id' hid' => h.entry id' (leading_put hcall hid').2, ?_⟩
  intro id' hpublished id'' hleading
  rcases eq_or_ne id' id with rfl | hne
  · rw [calls_put_self, hretiring] at hpublished
    cases hpublished
  · rw [calls_put_of_ne hne] at hpublished
    exact h.alone id' hpublished id'' (leading_put hcall hleading).2

/-- A round is over, or cut short. -/
theorem ends (h : s.Single) (hid : s.calls id = .leading) (hcall : call ≠ .leading) : (s.put id call entry).Single :=
  .of_none hcall fun id' hne hid' => hne (Option.some.inj ((h.entry id' hid').symm.trans (h.entry id hid)))

theorem step (h : s.Single) (hok : Unraced s s') (hstep : Step s s') : s'.Single := by
  cases hstep with
  | lead id hid hentry =>
    have hquiet := hok hentry rfl
    have hother : ∀ id', (s.put id .leading (some id)).calls id' = .leading → id' = id := by
      intro id' hid'
      by_contra hne
      cases hentry.symm.trans (h.entry id' ((calls_put_of_ne hne).symm.trans hid'))
    refine ⟨fun id' hid' => congrArg some (hother id' hid').symm, ?_⟩
    intro id' hretiring
    rcases eq_or_ne id' id with rfl | hne
    · rw [calls_put_self] at hretiring
      cases hretiring
    · rw [calls_put_of_ne hne, hquiet id'] at hretiring
      cases hretiring
  | publish _ _ hid | cancelLeader _ hid => exact h.ends hid (by simp)
  | send _ hid | drop _ hid => exact .of_none (by simp) fun id' _ => h.alone _ (by rw [hid]; rfl) id'
  | look id hid hwatched => split <;> exact h.put (by simp) rfl
  | _ => exact h.put (by simp) rfl

end Single

/-- **Rounds are shared soundly, and one at a time unless a leader is overtaken.** A round that a call
    takes from another started after the call arrived. As long as no round begins between a leader's
    publish and the drop of its handle, at most one round runs. -/
theorem shared_rounds_sound_single {ok : RoundMap α → RoundMap α → Prop} (h : Run ok s) :
    (∀ id askedAt leader round, s.calls id = .received askedAt leader round → askedAt < round.startedBeforeAnyRequest) ∧
    ((∀ s s', ok s s' → Unraced s s') → ∀ id id', s.calls id = .leading → s.calls id' = .leading → id = id') := by
  refine ⟨?_, ?_⟩
  · intro id askedAt leader round hid
    have hanswered := h.answered id
    rwa [hid] at hanswered
  · intro hok id id' hid hid'
    have hsingle : s.Single := by
      clear hid hid'
      induction h with
      | new => exact ⟨fun id hid => absurd hid (by rintro ⟨⟩), fun id hid => absurd hid (by rintro ⟨⟩)⟩
      | step _ hstep hs ih => exact ih.step (hok _ _ hstep) hs
    exact Option.some.inj ((hsingle.entry id hid).symm.trans (hsingle.entry id' hid'))

/-- A call leads a round that another joins in time, and the round is handed on. -/
theorem shared_rounds_sound_single_joined : ∃ s : RoundMap Unit, Run Unraced s ∧ s.calls 1 = .received 1 0 ⟨2, ()⟩ ∧
    ∀ id id', s.calls id = .leading → s.calls id' = .leading → id = id' := by
  have hquiet : ∀ id, ((new.put 0 (.looping 0) none : RoundMap Unit).calls id).retiring = false := by
    intro id
    rcases eq_or_ne id 0 with rfl | hne
    · rfl
    · rw [calls_put_of_ne hne]
      rfl
  have hnew : Run Unraced (new : RoundMap Unit) := .new
  have hled := (hnew.step (by rintro - ⟨⟩) (.arrive 0 0 rfl)).step (fun _ _ => hquiet) (.lead 0 rfl rfl)
  have hjoined := (hled.step (by rintro ⟨⟩) (.arrive 1 1 rfl)).step (by rintro ⟨⟩) (.join 1 rfl rfl)
  have hsent := (hjoined.step (by rintro ⟨⟩) (.publish 0 ⟨2, ()⟩ rfl)).step (by rintro - ⟨⟩) (.send 0 rfl)
  have htaken := hsent.step (by rintro - ⟨⟩) (.look 1 rfl rfl)
  exact ⟨_, htaken, rfl, (shared_rounds_sound_single htaken).2 fun _ _ h => h⟩

/-- A leader that has published is overtaken: the drop of its handle removes the other's entry, and a
    third call leads a second round. -/
theorem retiring_leader_unseats_successor : ∃ s : RoundMap Unit, Run
    (fun _ _ => True) s ∧ s.calls 1 = .leading ∧ s.calls 2 = .leading := by
  have hnew : Run (fun _ _ => True) (new : RoundMap Unit) := .new
  have hpublished := ((hnew.step trivial (.arrive 0 0 rfl)).step trivial (.lead 0 rfl rfl)).step
    trivial (.publish 0 ⟨1, ()⟩ rfl)
  have hovertaken := (hpublished.step trivial (.arrive 1 2 rfl)).step trivial (.lead 1 rfl rfl)
  have hdropped := (hovertaken.step trivial (.send 0 rfl)).step trivial (.drop 0 rfl)
  exact ⟨_, (hdropped.step trivial (.arrive 2 3 rfl)).step trivial (.lead 2 rfl rfl), rfl, rfl⟩

end RoundMap

end RallyPoint.Coordinator
