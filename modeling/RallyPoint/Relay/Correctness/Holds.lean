import RallyPoint.Relay.Correctness.DropEffects

/-!
# `Relay.Correctness.Holds` — drop holds, and the gate that reads them

Two properties of every interleaving of the tasks about drops.

* A hold names a slot that can still be dropped (`OpenDrop`): one with a departure, without a decided
  leave, and off line. Meanwhile a hold may also be one a reconnect is about to take, or one that the
  task that decided its slot's leave releases next (`Covered`). Two races break it: a drop held once more
  after its slot came back or left, and a drop recorded again between the release of a hold and the
  decision that follows. `holds_name_open_drops` is about the runs without these (`Unraced`); in them no
  claimed drop is of a connected slot.
* A dial is refused for good only when its slot had a departure and no hold at one moment. The gate reads
  the two one after the other, and a reconnect in between clears both: `refusal_saw_the_departure` is
  about the runs without one (`Undisturbed`).
-/

namespace RallyPoint.Relay

open Lib DropTask World

abbrev DropWorld := World SessionState DropTask DropAnswer

/-! ## Holds -/

section Holds

variable {w : DropWorld} {x : SlotId} {i : Nat} {task : DropTask}

/-- The slot can still be dropped: it has a departure and no decided leave, and is off line. -/
def OpenDrop (s : SessionState) (x : SlotId) : Prop :=
  s.maker.departed x = true ∧ s.maker.leaveDecided x = false ∧ s.maker.connectionIsUp x = false
deriving Decidable

/-- A task is about to release the hold of the slot, whose leave it knows to be decided. -/
def Releasing (w : DropWorld) (x : SlotId) : Prop := ∃ p ∈ w.tasks, x ∈ (roleOf role p).releases

/-- A task has recorded a departure of the slot and is about to install its hold. -/
def Installing (w : DropWorld) (x : SlotId) : Prop := ∃ p ∈ w.tasks, (roleOf role p).installs = some x

/-- A reconnect of the slot is about to take its hold. -/
def Consuming (w : DropWorld) (x : SlotId) : Prop := ∃ p ∈ w.tasks, (roleOf role p).consumes = some x

/-- A task has released the hold of the slot and is about to decide its leave. -/
def Deciding (w : DropWorld) (x : SlotId) : Prop := ∃ p ∈ w.tasks, (roleOf role p).decides = some x
deriving Decidable

/-- A task has claimed the hold of the slot, and is about to decide its drop. -/
def Claiming (w : DropWorld) (x : SlotId) : Prop := ∃ p ∈ w.tasks, (roleOf role p).claims = some x

/-- The slot's departure stands, and it is off line; if its leave is decided, its hold is about to go. -/
def Covered (w : DropWorld) (x : SlotId) : Prop :=
  w.shared.maker.departed x = true ∧ w.shared.maker.connectionIsUp x = false ∧
    (w.shared.maker.leaveDecided x = true → Releasing w x)

theorem OpenDrop.covered (h : OpenDrop w.shared x) : Covered w x := ⟨h.1, h.2.2, fun hd => absurd hd (by simp [h.2.1])⟩

/-- **What holds while tasks are under way.** -/
structure Sound (w : DropWorld) : Prop where
  excluded : World.Excluded SessionState.holdsLocked locksHolds w
  held : ∀ x, w.shared.isPending x = true → Covered w x ∨ Consuming w x
  installing : ∀ x, Installing w x → Covered w x
  deciding : ∀ x, Deciding w x → w.shared.isPending x = false ∧ ¬ Installing w x
  claiming : ∀ x, Claiming w x → w.shared.maker.departed x = true ∧ w.shared.maker.connectionIsUp x = false

/-- The holds are locked by a task that installs or takes one. -/
theorem Sound.locked (h : Sound w) {p : Progress DropTask DropAnswer} (hp : p ∈ w.tasks)
    (hholder : (roleOf role p).holder = true) : w.shared.holdsLocked = true := by
  cases p with
  | done => cases hholder
  | going task => exact h.excluded.taken hp hholder

theorem Sound.not_installing (h : Sound w) (hfree : w.shared.holdsLocked = false) : ¬ Installing w x := by
  rintro ⟨p, hp, hinstalls⟩
  simp [h.locked hp (Role.holder_of_installs hinstalls)] at hfree

theorem Sound.not_consuming (h : Sound w) (hfree : w.shared.holdsLocked = false) : ¬ Consuming w x := by
  rintro ⟨p, hp, hconsumes⟩
  simp [h.locked hp (Role.holder_of_consumes hconsumes)] at hfree

/-- **The condition on a run**: a drop is held once more only while it is still held, or open with no
    decision of it under way; and a departure is recorded as pending only while no task that has released
    the slot's hold is about to decide its leave. -/
def Unraced (w : DropWorld) : Move DropTask → Prop
  | .start task => task.isEntry = true
  | .advance i => ∀ task ∈ w.pointOf (.advance i),
      (∀ x ∈ task.role.holdsAgain, w.shared.holdsLocked = false →
        w.shared.isPending x = true ∨ OpenDrop w.shared x ∧ ¬ Deciding w x) ∧
      (∀ x ∈ (roleOf role (task.next w.shared).2).installs, ¬ Deciding w x)

instance (w : DropWorld) : (m : Move DropTask) → Decidable (Unraced w m)
  | .start task => inferInstanceAs (Decidable (task.isEntry = true))
  | .advance _ =>
    -- by the options' own values, not over all slots
    @Option.decidableForallMem _ _ (fun _ => @instDecidableAnd _ _ (Option.decidableForallMem _)
      (Option.decidableForallMem _)) _

/-- The world after a piece of the task `i`. -/
abbrev advanced (w : DropWorld) (i : Nat) (task : DropTask) : DropWorld :=
  ⟨(task.next w.shared).1, w.tasks.set i (task.next w.shared).2⟩

/-- **What a piece does to a covered slot**: leave it covered, take its hold for a reconnect, decide its
    leave, or release its hold. -/
theorem Covered.advance (h : Covered w x) (hi : w.tasks[i]? = some (.going task)) :
    Covered (advanced w i task) x ∨ w.shared.holdsLocked = false ∧ Consuming (advanced w i task) x ∨
    Deciding w x ∨ w.shared.holdsLocked = false ∧ (advanced w i task).shared.isPending x = false := by
  have hpromise := task.guarantee w.shared
  have hself : (task.next w.shared).2 ∈ w.tasks.set i (task.next w.shared).2 := mem_set_self hi
  obtain ⟨hdeparted, hdown, hreleasing⟩ := h
  rcases hpromise.stands x with hstands | ⟨-, hfree, -, hconsumes⟩
  swap
  · exact .inr (.inl ⟨hfree, _, hself, hconsumes⟩)
  have hdeparted' := hstands.departed hdeparted
  have hdown' := hstands.down hdeparted hdown
  by_cases hdecided : (task.next w.shared).1.maker.leaveDecided x = true
  swap
  · exact .inl ⟨hdeparted', hdown', fun hd => absurd hd hdecided⟩
  rcases hpromise.decided x hdecided with hbefore | hdecides | hreleases
  · -- decided before: the task that releases the hold is another one, or this one
    rcases exists_set _ hi (hreleasing hbefore) with hmine | hother
    · rcases hpromise.released x hmine with hstill | hreleased
      · exact .inl ⟨hdeparted', hdown', fun _ => ⟨_, hself, hstill⟩⟩
      · exact .inr (.inr (.inr hreleased))
    · exact .inl ⟨hdeparted', hdown', fun _ => hother⟩
  · exact .inr (.inr (.inl ⟨_, List.mem_of_getElem? hi, hdecides⟩))
  · exact .inl ⟨hdeparted', hdown', fun _ => ⟨_, hself, hreleases⟩⟩

/-- A hold after a piece is covered, or about to be taken. -/
theorem Sound.held_advanced (h : Sound w) (hi : w.tasks[i]? = some (.going task)) (hok : Unraced w (.advance i))
    (hheld : (advanced w i task).shared.isPending x = true) :
    Covered (advanced w i task) x ∨ Consuming (advanced w i task) x := by
  have hpromise := task.guarantee w.shared
  -- a slot that is covered before, with no decision of it under way
  have hcovered : Covered w x → ¬ Deciding w x → Covered (advanced w i task) x ∨ Consuming (advanced w i task) x := by
    intro hx hquiet
    rcases hx.advance hi with hx | ⟨-, hx⟩ | hx | ⟨-, hgone⟩
    · exact .inl hx
    · exact .inr hx
    · exact absurd hx hquiet
    · simp [hheld] at hgone
  have hkept : w.shared.isPending x = true → Covered (advanced w i task) x ∨ Consuming (advanced w i task) x := by
    intro hbefore
    rcases h.held x hbefore with hx | hx
    · exact hcovered hx fun hdeciding => by simp [(h.deciding x hdeciding).1] at hbefore
    · rcases exists_set _ hi hx with hmine | hother
      · exact absurd hheld (by simp [hpromise.consumed x hmine])
      · exact .inr hother
  rcases hpromise.held x hheld with hbefore | hinstalls | ⟨hholds, hfree⟩
  · exact hkept hbefore
  · have hinstalling : Installing w x := ⟨_, List.mem_of_getElem? hi, hinstalls⟩
    exact hcovered (h.installing x hinstalling) fun hdeciding => (h.deciding x hdeciding).2 hinstalling
  · rcases (hok task (by simp [pointOf, hi])).1 x hholds hfree with hbefore | ⟨hopen, hquiet⟩
    · exact hkept hbefore
    · exact hcovered hopen.covered hquiet

theorem Sound.installing_advanced (h : Sound w) (hi : w.tasks[i]? = some (.going task))
    (hinstalling : Installing (advanced w i task) x) : Covered (advanced w i task) x := by
  obtain ⟨p, hp, hinstalls⟩ := hinstalling
  rcases mem_of_mem_set hp with rfl | hp
  · obtain ⟨hdeparted, hdown, hundecided⟩ := (task.guarantee w.shared).installed x hinstalls
    exact ⟨hdeparted, hdown, fun hd => absurd hd (by simpa using hundecided)⟩
  · have hbefore : Installing w x := ⟨p, hp, hinstalls⟩
    rcases (h.installing x hbefore).advance hi with hx | ⟨hfree, -⟩ | hx | ⟨hfree, -⟩
    · exact hx
    · exact absurd hbefore (h.not_installing hfree)
    · exact absurd hbefore (h.deciding x hx).2
    · exact absurd hbefore (h.not_installing hfree)

/-- A slot is not held again before it is decided. -/
theorem Sound.deciding_advanced (h : Sound w) (hi : w.tasks[i]? = some (.going task)) (hok : Unraced w (.advance i))
    (hdeciding : Deciding (advanced w i task) x) :
    (advanced w i task).shared.isPending x = false ∧ ¬ Installing (advanced w i task) x := by
  have hpromise := task.guarantee w.shared
  obtain ⟨hagain, hinstalls⟩ := hok task (by simp [pointOf, hi])
  obtain ⟨p, hp, hdecides⟩ := hdeciding
  rcases mem_of_mem_set hp with rfl | hp
  · -- the task has just released the hold
    obtain ⟨hfree, hgone, -⟩ := hpromise.coming x hdecides
    refine ⟨hgone, ?_⟩
    rintro ⟨q, hq, hq'⟩
    rcases mem_of_mem_set hq with rfl | hq
    · revert hdecides hq'
      cases roleOf role (task.next w.shared).2 <;> simp [Role.decides, Role.installs]
    · exact h.not_installing hfree ⟨q, hq, hq'⟩
  · have hbefore : Deciding w x := ⟨p, hp, hdecides⟩
    obtain ⟨hfree, hquiet⟩ := h.deciding x hbefore
    refine ⟨?_, ?_⟩
    · by_contra hheld
      rcases hpromise.held x (by simpa using hheld) with hheld | hmine | ⟨hholds, hunlocked⟩
      · simp [hfree] at hheld
      · exact hquiet ⟨_, List.mem_of_getElem? hi, hmine⟩
      · rcases hagain x hholds hunlocked with hheld | ⟨-, hnone⟩
        · simp [hfree] at hheld
        · exact hnone hbefore
    · rintro ⟨q, hq, hq'⟩
      rcases mem_of_mem_set hq with rfl | hq
      · exact hinstalls x hq' hbefore
      · exact hquiet ⟨q, hq, hq'⟩

/-- A claimed drop stays that of a slot that is off line. -/
theorem Sound.claiming_advanced (h : Sound w) (hclaiming : Claiming (advanced w i task) x) :
    (advanced w i task).shared.maker.departed x = true ∧ (advanced w i task).shared.maker.connectionIsUp x = false := by
  have hpromise := task.guarantee w.shared
  obtain ⟨p, hp, hclaims⟩ := hclaiming
  rcases mem_of_mem_set hp with rfl | hp
  · obtain ⟨hfree, -, hmaker, hheld⟩ := hpromise.coming x (Role.decides_of_claims hclaims)
    obtain ⟨hdeparted, hdown, -⟩ := (h.held x (hheld hclaims)).resolve_right (h.not_consuming hfree)
    show (task.next w.shared).1.maker.departed x = true ∧ _
    rw [hmaker]
    exact ⟨hdeparted, hdown⟩
  · obtain ⟨hdeparted, hdown⟩ := h.claiming x ⟨p, hp, hclaims⟩
    rcases hpromise.stands x with hstands | ⟨-, -, hheld, -⟩
    · exact ⟨hstands.departed hdeparted, hstands.down hdeparted hdown⟩
    · -- a reconnect would need a hold
      simp [(h.deciding x ⟨p, hp, Role.decides_of_claims hclaims⟩).1] at hheld

theorem Sound.move (h : Sound w) {m : Move DropTask} (hok : Unraced w m) : Sound (w.move next m) := by
  have hexcluded : World.Excluded SessionState.holdsLocked locksHolds (w.move next m) := by
    refine h.excluded.move guards ?_
    rintro task rfl
    exact (role_of_isEntry hok).1.holder
  revert hexcluded
  refine move_cases (I := fun w' => World.Excluded _ _ w' → Sound w') m (fun _ => h) ?_ ?_
  · rintro task rfl hexcluded
    -- the new task has no part in the holds yet
    obtain ⟨houtside, hnone⟩ := role_of_isEntry hok
    have hnew : ∀ {P : Progress DropTask DropAnswer → Prop}, (∃ p ∈ w.tasks, P p) → ∃ p ∈ w.tasks ++ [.going task], P p :=
      fun ⟨p, hp, hP⟩ => ⟨p, List.mem_append_left _ hp, hP⟩
    have hold : ∀ {P : Progress DropTask DropAnswer → Prop}, ¬ P (.going task) →
        (∃ p ∈ w.tasks ++ [.going task], P p) → ∃ p ∈ w.tasks, P p := by
      rintro P hnot ⟨p, hp, hP⟩
      rcases List.mem_append.mp hp with hp | hp
      · exact ⟨p, hp, hP⟩
      · exact absurd (List.mem_singleton.mp hp ▸ hP) hnot
    have hcovered : ∀ x, Covered w x → Covered { w with tasks := w.tasks ++ [.going task] } x :=
      fun x hx => ⟨hx.1, hx.2.1, fun hd => hnew (hx.2.2 hd)⟩
    have hinstalls : ∀ x, Installing { w with tasks := w.tasks ++ [.going task] } x → Installing w x :=
      fun x => hold (by simp [roleOf, houtside.installs])
    have hdecides : ∀ x, Deciding { w with tasks := w.tasks ++ [.going task] } x → Deciding w x :=
      fun x => hold (by simp [roleOf, hnone])
    refine ⟨hexcluded, fun x hx => (h.held x hx).imp (hcovered x) hnew,
      fun x hx => hcovered x (h.installing x (hinstalls x hx)), fun x hx => ?_, fun x hx => h.claiming x (hold ?_ hx)⟩
    · obtain ⟨hfree, hquiet⟩ := h.deciding x (hdecides x hx)
      exact ⟨hfree, fun hx' => hquiet (hinstalls x hx')⟩
    · intro hclaims
      exact absurd (Role.decides_of_claims hclaims) (by simp [roleOf, hnone])
  · rintro i task rfl _ hi hexcluded
    exact ⟨hexcluded, fun x => h.held_advanced hi hok, fun x => h.installing_advanced hi,
      fun x => h.deciding_advanced hi hok, fun x => h.claiming_advanced⟩

/-- **At rest, every hold names a slot that can still be dropped**, after every unraced run from a
    session where that is so; a drop request for a connected slot then ends at the hold it does not find.
    And at every moment of such a run the slot of a claimed drop has a departure and is off line, so that
    no request is honored against a connected slot. -/
theorem holds_name_open_drops (s : SessionState) (hfree : s.holdsLocked = false)
    (hopen : ∀ x, s.isPending x = true → OpenDrop s x)
    (moves : List (Move DropTask)) (hrun : World.Obeys next Unraced (World.init s) moves) :
    let w : DropWorld := (init s).run next moves
    (w.Idle → (∀ x, w.shared.isPending x = true → w.shared.maker.departed x = true ∧ w.shared.maker.leaveDecided x = false ∧
        w.shared.maker.connectionIsUp x = false) ∧
      ∀ x now, w.shared.maker.connectionIsUp x = true → (Honor.heldFor x now).next w.shared = (w.shared, .done ())) ∧
    ∀ x, Claiming w x → w.shared.maker.departed x = true ∧ w.shared.maker.connectionIsUp x = false := by
  intro w
  have hstart : Sound (init s) :=
    ⟨by simp [World.Excluded, init, hfree], fun x hx => .inl (hopen x hx).covered,
      fun x ⟨p, hp, _⟩ => absurd hp (by simp [init]),
      fun x ⟨p, hp, _⟩ => absurd hp (by simp [init]), fun x ⟨p, hp, _⟩ => absurd hp (by simp [init])⟩
  have hsound : Sound w := run_invariant (fun _ _ h hok => h.move hok) hstart hrun
  refine ⟨fun hidle => ?_, hsound.claiming⟩
  -- at rest no task has a role, and the holds are free
  have hnone : ∀ p ∈ w.tasks, roleOf role p = .plain := by
    intro p hp
    cases p with
    | going task => exact absurd hp (hidle task)
    | done => rfl
  have hheld : ∀ x, w.shared.isPending x = true → OpenDrop w.shared x := by
    intro x hx
    rcases hsound.held x hx with ⟨hdeparted, hdown, hreleasing⟩ | ⟨p, hp, hconsumes⟩
    · refine ⟨hdeparted, ?_, hdown⟩
      by_contra hdecided
      obtain ⟨p, hp, hreleases⟩ := hreleasing (by simpa using hdecided)
      rw [hnone p hp] at hreleases
      cases hreleases
    · rw [hnone p hp] at hconsumes
      cases hconsumes
  refine ⟨hheld, fun x now hup => ?_⟩
  have hunlocked : w.shared.holdsLocked = false := by
    have hcount : w.tasks.countP (·.at locksHolds) = w.shared.holdsLocked.toNat := hsound.excluded
    rw [List.countP_eq_zero.mpr fun p hp => by simp [at_locksHolds, hnone p hp, Role.holder]] at hcount
    cases hl : w.shared.holdsLocked with
    | false => rfl
    | true => simp [hl] at hcount
  have hfound : w.shared.heldPastUnlock x now = false := by
    by_contra hpast
    have hpending : w.shared.isPending x = true := by
      unfold SessionState.heldPastUnlock at hpast
      unfold SessionState.isPending
      cases hget : w.shared.holds.get? x with
      | none => simp [hget] at hpast
      | some since => rfl
    simp [(hheld x hpending).2.2] at hup
  simp [Honor.next, hunlocked, hfound]

/-- A session that decides for itself, with slot 3 connected on generation 7. -/
def connected : SessionState :=
  .fresh ((DecisionMaker.create ⟨1, 8⟩ .selfRelay ∅ false false).admitConnectionUp 3 (some 7)).1 10

/-- A peer announces slot 3's drop while slot 4 connects; then a request claims the drop. -/
theorem holds_name_open_drops_announced :
    let moves : List (Move DropTask) :=
      [.start (.announce (.accept ⟨3, leaveReasonDropped, some 7, 0, false⟩ {})),
        .start (.reconnect (.resolve 4 (some 9)))] ++
        [0, 0, 1, 0, 1, 0, 1, 0].map .advance
    let w : DropWorld := (init connected).run next moves
    let asked : List (Move DropTask) := moves ++ .start (.honor (.isAuthority 3 30)) :: [2, 2, 2, 2].map .advance
    let w' : DropWorld := (init connected).run next asked
    (w.shared.isPending 3 = true ∧ w.shared.maker.departed 3 = true ∧ w.shared.maker.leaveDecided 3 = false ∧
      w.shared.maker.connectionIsUp 3 = false) ∧
    Claiming w' 3 ∧ w'.shared.maker.departed 3 = true ∧ w'.shared.maker.connectionIsUp 3 = false := by
  intro moves w asked w'
  have hheld : w.shared.isPending 3 = true := by decide +kernel
  have htask : w'.tasks[2]? = some (.going (.honor (.decide 3))) := rfl
  have hclaiming : Claiming w' 3 := ⟨_, List.mem_of_getElem? htask, rfl⟩
  obtain ⟨hrest, -⟩ := holds_name_open_drops connected rfl (by decide +kernel) moves (by decide +kernel)
  obtain ⟨-, hclaimed⟩ := holds_name_open_drops connected rfl (by decide +kernel) asked (by decide +kernel)
  exact ⟨⟨hheld, (hrest (by decide +kernel)).1 3 hheld⟩, hclaiming, hclaimed 3 hclaiming⟩

/-- The hold of a slot that came back before its drop was held once more; and the hold of a slot that
    left, because a peer's drop of it was recorded between the release of its hold and the decision. -/
theorem stale_holds_remain :
    let dropped : Departing := ⟨3, leaveReasonDropped, some 7, 0, false⟩
    let left : Departing := ⟨3, leaveReasonLeft, some 7, 0, false⟩
    let back : DropWorld := (init connected).run next
      ([.start (.announce (.accept dropped {})), .start (.reconnect (.resolve 3 (some 8)))] ++
        [0, 0, 0, 1, 1, 0].map .advance)
    let gone : DropWorld := (init connected).run next
      ([.start (.announce (.accept left { lastFrame := some 5 })), .start (.announce (.accept dropped {}))] ++
        [0, 0, 0, 1, 1, 0, 1, 1].map .advance)
    (back.Idle ∧ back.shared.isPending 3 = true ∧ back.shared.maker.departed 3 = false ∧
      back.shared.maker.connectionIsUp 3 = true) ∧
    (gone.Idle ∧ gone.shared.isPending 3 = true ∧ gone.shared.maker.leaveDecided 3 = true) := by
  decide +kernel

end Holds

/-! ## The gate -/

section Gate

variable {w : DropWorld} {x : SlotId} {i : Nat} {task : DropTask}

/-- The slot a gate has read a departure of, before it reads its hold. -/
def DropTask.sawDeparture : DropTask → Option SlotId
  | gate (.isPending slot true) => some slot
  | _ => none

/-- A gate of the slot stands between its two reads, and the first one found a departure. -/
def Gating (w : DropWorld) (x : SlotId) : Prop :=
  ∃ p ∈ w.tasks, p.at (fun task => decide (task.sawDeparture = some x)) = true
deriving Decidable

/-- **The condition on a run**: no reconnect of a departed slot comes between a gate's two reads. -/
def Undisturbed (w : DropWorld) : Move DropTask → Prop
  | .start task => task.isEntry = true
  | .advance i => ∀ task ∈ w.pointOf (.advance i), ∀ x ∈ task.role.resolves,
      w.shared.holdsLocked = false → w.shared.maker.departed x = true → ¬ Gating w x

instance (w : DropWorld) : (m : Move DropTask) → Decidable (Undisturbed w m)
  | .start task => inferInstanceAs (Decidable (task.isEntry = true))
  | .advance _ => @Option.decidableForallMem _ _ (fun _ => Option.decidableForallMem _) _

/-- Only a gate comes to stand between the two reads, and it has just read a departure. -/
theorem DropTask.sawDeparture_next {s : SessionState}
    (h : (task.next s).2.at (fun task => decide (task.sawDeparture = some x)) = true) :
    (task.next s).1.maker.departed x = true ∨ task.sawDeparture = some x := by
  cases task with
  | gate point =>
    cases point with
    | hasDeparture slot =>
      left
      cases hd : s.maker.departed slot <;> simp [next, DecidedDeparture.next, Progress.call,
        Progress.at, sawDeparture, hd] at h
      exact h ▸ hd
    | isPending slot departed =>
      right
      cases hlocked : s.holdsLocked <;> cases departed <;>
        simp [next, DecidedDeparture.next, Progress.call, Progress.at, sawDeparture, hlocked] at h ⊢
      exact h
  | _ => exact absurd h (by rw [next, Progress.not_at_call fun _ => rfl]; decide)

/-- A gate refuses from its second read, with the holds free and no hold of the slot. -/
theorem DropTask.refused_from {s : SessionState} (h : (task.next s).2 = .done (.gated x true)) :
    task.sawDeparture = some x ∧ s.holdsLocked = false ∧ s.isPending x = false := by
  cases task with
  | gate point =>
    cases point with
    | hasDeparture slot => simp [next, DecidedDeparture.next, Progress.call] at h
    | isPending slot departed =>
      cases hlocked : s.holdsLocked <;> cases departed <;>
        simp [next, DecidedDeparture.next, DecidedDeparture.slot, Progress.call, hlocked] at h
      obtain ⟨rfl, hnone⟩ := h
      exact ⟨rfl, rfl, hnone⟩
  | _ => obtain ⟨_, -, ⟨⟩⟩ := Progress.call_eq_done h

/-- A departure a gate has read still stands. -/
def Watched (w : DropWorld) : Prop := ∀ x, Gating w x → w.shared.maker.departed x = true

theorem Watched.move (h : Watched w) {m : Move DropTask} (hok : Undisturbed w m) : Watched (w.move next m) := by
  refine move_cases m h ?_ ?_
  · rintro task rfl x ⟨p, hp, hsaw⟩
    rcases List.mem_append.mp hp with hp | hp
    · exact h x ⟨p, hp, hsaw⟩
    · -- no operation begins between the reads
      obtain rfl : p = .going task := by simpa using hp
      have hentry : task.isEntry = true := hok
      revert hsaw hentry
      simp only [Progress.at, decide_eq_true_eq]
      unfold sawDeparture
      split <;> simp [isEntry]
  · rintro i task rfl hpoint hi x ⟨p, hp, hsaw⟩
    have hkept : Gating w x → (task.next w.shared).1.maker.departed x = true := by
      intro hgating
      rcases (task.guarantee w.shared).departed x (h x hgating) with hd | ⟨hresolves, hfree⟩
      · exact hd
      · exact absurd hgating (hok task hpoint x hresolves hfree (h x hgating))
    rcases mem_of_mem_set hp with rfl | hp
    · rcases sawDeparture_next hsaw with hd | hsaw
      · exact hd
      · exact hkept ⟨_, List.mem_of_getElem? hi, by simpa [Progress.at] using hsaw⟩
    · exact hkept ⟨p, hp, hsaw⟩

/-- **A dial is refused as departed only if its slot had a departure and no hold**, at a moment before
    the answer when no task was in the middle of changing the holds; in every undisturbed run. -/
theorem refusal_saw_the_departure (s : SessionState) (moves : List (Move DropTask))
    (hrun : World.Obeys next Undisturbed (World.init s) moves) (slot : SlotId)
    (hrefused : .done (.gated slot true) ∈ ((World.init s : DropWorld).run next moves).tasks) :
    ∃ earlier later, moves = earlier ++ later ∧ later ≠ [] ∧
      let moment := ((init s : DropWorld).run next earlier).shared
      moment.holdsLocked = false ∧ moment.maker.departed slot = true ∧ moment.isPending slot = false := by
  rcases returned_cases hrefused with hinit | ⟨earlier, m, later, task, rfl, hpoint, hreturn⟩
  · simp [init] at hinit
  obtain ⟨hsaw, hfree, hnone⟩ := refused_from hreturn
  refine ⟨earlier, m :: later, rfl, by simp, hfree, ?_, hnone⟩
  have hwatched : Watched ((init s : DropWorld).run next earlier) := by
    refine run_invariant (fun _ _ h hok => h.move hok) ?_ (World.Obeys.append.mp hrun).1
    rintro x ⟨p, hp, _⟩
    simp [init] at hp
  -- the gate stands in the world its second read is taken in
  refine hwatched slot ?_
  cases m with
  | start task => cases hpoint
  | advance i =>
    simp only [pointOf] at hpoint
    split at hpoint
    · rename_i hi
      cases hpoint
      exact ⟨_, List.mem_of_getElem? hi, by simpa [Progress.at] using hsaw⟩
    · cases hpoint

/-- A dial of slot 3 while an honored request claims and decides its drop. -/
theorem refusal_saw_the_departure_claimed :
    let moves : List (Move DropTask) :=
      [.start (.announce (.accept ⟨3, leaveReasonDropped, some 7, 0, false⟩ { lastFrame := some 5 }))] ++
        [0, 0, 0, 0].map .advance ++
      [.start (.gate (.hasDeparture 3)), .start (.honor (.isAuthority 3 30))] ++ [1, 2, 2, 2, 2, 1, 2].map .advance
    ∃ earlier later, moves = earlier ++ later ∧ later ≠ [] ∧
      let moment := ((init connected : DropWorld).run next earlier).shared
      moment.holdsLocked = false ∧ moment.maker.departed 3 = true ∧ moment.isPending 3 = false := by
  intro moves
  refine refusal_saw_the_departure connected moves (by decide +kernel) 3 ?_
  have htasks : ((init connected : DropWorld).run next moves).tasks =
    [.done .returned, .done (.gated 3 true), .done .returned] := rfl
  rw [htasks]
  simp

/-- Slot 3 drops, and comes back between a gate's two reads: it is refused although it was never departed
    without a hold. -/
theorem refusal_without_a_departure :
    let moves : List (Move DropTask) :=
      [.start (.announce (.accept ⟨3, leaveReasonDropped, some 7, 0, false⟩ {})), .start (.gate (.hasDeparture 3)),
        .start (.reconnect (.resolve 3 (some 8)))] ++ [0, 0, 0, 0, 1, 2, 2, 1].map .advance
    let visited (n : Nat) : DropWorld := (init connected).run next (moves.take n)
    (visited moves.length).tasks[1]? = some (.done (.gated 3 true)) ∧
    ∀ n ≤ moves.length, ¬ ((visited n).shared.holdsLocked = false ∧ (visited n).shared.maker.departed 3 = true ∧
      (visited n).shared.isPending 3 = false) :=
  ⟨rfl, by decide +kernel⟩

end Gate

end RallyPoint.Relay
