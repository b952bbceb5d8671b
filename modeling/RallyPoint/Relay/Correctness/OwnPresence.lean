import RallyPoint.Relay.Session.Tasks
import RallyPoint.Relay.Correctness.MakerSteps

/-!
# `Relay.Correctness.OwnPresence` — a relay's own report and its roster

A link that takes or leaves its seat reports the roster: it samples the count under the roster's lock,
records it under the presence's, and sets the authority under the maker's. Between two of these another
link may do all of its own, so a sample can be recorded after a newer one, and a verdict set after a
newer one. Then the relay rests with a report that is not its roster, or with an authority that is not
its verdict. `presence_follows_the_roster` is about the runs where neither is overtaken (`InStep`).
-/

namespace RallyPoint.Relay

open Lib Lib.Trace SessionPresence World Progress SessionState ChangeRoster List

/-- Someone has a seat. -/
def SessionState.Occupied (s : SessionState) : Prop := 0 < s.roster.size
deriving Decidable

/-- The relay reports players. -/
def SessionPresence.reportsPlayers (p : SessionPresence) : Bool := p.ownReport.any (0 < ·)

/-- The report of an entry is positive exactly when someone has a seat. -/
def SessionState.Reported (s : SessionState) : Prop := ∀ p ∈ s.presence, (p.reportsPlayers = true ↔ s.Occupied)
deriving Decidable

/-- The maker has the authority the reports give, if they give one. -/
def SessionState.Follows (s : SessionState) : Prop := ∀ a ∈ SessionPresence.verdict s.presence, s.maker.authority = a
deriving Decidable

/-! ## What each section does -/

theorem SessionState.occupied_iff {s : SessionState} : s.Occupied ↔ ∃ slot, s.seated slot = true := OrdMap.size_pos

namespace SessionPresence

variable {entry : Option SessionPresence} {live : Nat}

/-- The report just recorded is the entry's, if there is one. -/
theorem recordOwn_reports : ∀ p ∈ (recordOwn entry live).1, (p.reportsPlayers = true ↔ 0 < live) := by
  intro p hp
  cases entry with
  | some q =>
    obtain rfl : q.withOwn live = p := by simpa [recordOwn] using hp
    simp [reportsPlayers, withOwn]
  | none =>
    by_cases hpos : 0 < live
    · simp only [recordOwn, hpos, if_true, Option.mem_some_iff] at hp
      subst hp
      simp [reportsPlayers, hpos]
    · simp [recordOwn, hpos] at hp

/-- **A record that does not flip the liveness leaves the verdict.** -/
theorem recordOwn_verdict (h : (recordOwn entry live).2 = false) : verdict (recordOwn entry live).1 = verdict entry := by
  cases entry with
  | some p =>
    have hlive : (p.withOwn live).ownLive = p.ownLive := by
      have heq : p.ownLive = decide (0 < live) := by simpa [recordOwn] using h
      rw [heq]
      simp [ownLive, withOwn]
    have hcandidates : (p.withOwn live).candidateLive = p.candidateLive := by
      funext c
      cases c with
      | selfRelay => exact hlive
      | peer id => rfl
    show verdict (some (p.withOwn live)) = verdict (some p)
    simp only [verdict, hcandidates]
    rfl
  | none =>
    -- an entry made by the report has no order
    by_cases hpos : 0 < live <;> simp [recordOwn, hpos, verdict, empty]

end SessionPresence

namespace DecisionMaker

variable {m m' : DecisionMaker} {es : List MakerEvent}

theorem Step.authority_stays (hstep : Step m es m') : m'.authority = m.authority ∨ ∃ a, .handover a ∈ es := by
  cases hstep with
  | handover authority h => exact .inr ⟨authority, mem_singleton_self _⟩
  | _ => exact .inl rfl

/-- The authority moves only by a handover. -/
theorem authority_of_steps (h : Steps Step m es m') (hnone : ∀ a, .handover a ∉ es) : m'.authority = m.authority := by
  have hkept := h.keeps (I := fun m' log => m'.authority = m.authority ∨ ∃ a, .handover a ∈ log) ?_ [] (.inl rfl)
  · exact hkept.resolve_right fun ⟨a, ha⟩ => hnone a ha
  rintro m₁ log e m₂ hstep (heq | ⟨a, ha⟩)
  · exact hstep.authority_stays.imp (·.trans heq) fun ⟨a, ha⟩ => ⟨a, mem_append_right log ha⟩
  · exact .inr ⟨a, mem_append_left e ha⟩

theorem setAuthority_authority (authority : Authority) (held : Finset SlotId) (order : List SlotId) :
    (m.setAuthority authority held order).1.authority = authority := by
  unfold setAuthority
  split
  · assumption
  · split
    · exact authority_of_steps (drainHandoffLeaves_steps held order) (by simp)
    · rfl

theorem maybeStart_authority : m.maybeStart.1.authority = m.authority := authority_of_steps maybeStart_steps (by simp)

end DecisionMaker

/-! ## Where a task stands -/

namespace ChangeRoster

/-- A link begins by taking or leaving its seat. -/
def isEntry : ChangeRoster → Bool
  | join _ _ _ => true
  | leave _ _ => true
  | report _ => false

/-- The change may fill an empty roster, or leave it empty. -/
def flips : ChangeRoster → SessionState → Bool
  | join _ _ _, s => decide (¬ s.Occupied)
  | leave slot _, s => decide (¬ (s.deregister slot).Occupied)
  | report _, _ => false

/-- The count a report has sampled and not yet recorded. -/
def sampled : ChangeRoster → Option Nat
  | report (.recordOwn live _) => some live
  | _ => none

/-- A report that has not yet recorded. -/
def reporting : ChangeRoster → Bool
  | report (.sample _) => true
  | report (.recordOwn _ _) => true
  | _ => false

/-- The authority a report is about to set. -/
def sets : ChangeRoster → Option Authority
  | report (.setAuthority authority _ _) => some authority
  | _ => none

/-- A report that has recorded a flip, and not yet set the authority. -/
def settling : ChangeRoster → Bool
  | report (.snapshot _) => true
  | report (.verdict _ _) => true
  | report (.setAuthority _ _ _) => true
  | _ => false

/-- The report of a peer, which no link of this relay comes to. -/
def foreign : ChangeRoster → Bool
  | report (.recordPeer _ _ _) => true
  | _ => false

/-- **What a piece does** to the roster, the report and the authority. -/
structure Effects (task : ChangeRoster) (s s' : SessionState) (progress : Progress ChangeRoster Unit) : Prop where
  own : progress.at foreign = false
  /-- A flip of the roster is reported next. -/
  roster : (s'.Occupied ↔ s.Occupied) ∨ task.flips s = true ∧ progress.at reporting = true
  samples : ∀ live, progress.carries sampled = some live → (0 < live ↔ s'.Occupied)
  presence : s'.presence = s.presence ∨ ∃ live, task.sampled = some live ∧ ∀ p ∈ s'.presence,
    (p.reportsPlayers = true ↔ 0 < live)
  /-- A report goes on until it has recorded. -/
  reports : task.reporting = true → progress.at reporting = true ∨
    ∃ live, task.sampled = some live ∧ ∀ p ∈ s'.presence, (p.reportsPlayers = true ↔ 0 < live)
  derives : ∀ a, progress.carries sets = some a → SessionPresence.verdict s'.presence = some a
  /-- A verdict that moved is derived next, -/
  verdict : SessionPresence.verdict s'.presence = SessionPresence.verdict s.presence ∨ progress.at settling = true
  /-- and set. -/
  authority : task.sets = some s'.maker.authority ∧ s'.presence = s.presence ∨ s'.maker.authority = s.maker.authority ∧
      (task.settling = true → progress.at settling = true ∨ SessionPresence.verdict s'.presence = none)

variable {s s' : SessionState} {task : ChangeRoster} {progress : Progress ChangeRoster Unit}

/-- A piece that leaves the report and the authority, and comes to nothing it carries. -/
theorem Effects.quiet (hroster : (s'.Occupied ↔ s.Occupied) ∨ task.flips s = true ∧ progress.at reporting = true)
    (hpresence : s'.presence = s.presence) (hauthority : s'.maker.authority = s.maker.authority)
    (hown : progress.at foreign = false)
    (hsampled : progress.carries sampled = none) (hsets : progress.carries sets = none)
    (hreports : task.reporting = true → progress.at reporting = true)
    (hsettling : task.settling = true → progress.at settling = true ∨ SessionPresence.verdict s'.presence = none) :
    Effects task s s' progress where
  own := hown
  roster := hroster
  samples := by simp [hsampled]
  presence := .inl hpresence
  reports h := .inl (hreports h)
  derives := by simp [hsets]
  verdict := .inl (by rw [hpresence])
  authority := .inr ⟨hauthority, hsettling⟩

theorem effects_join (slot : SlotId) (epoch : Nat) (order : List SlotId) (s : SessionState) :
    Effects (join slot epoch order) s (next (join slot epoch order) s).1 (next (join slot epoch order) s).2 := by
  simp only [next]
  split
  · exact .quiet (.inl .rfl) rfl rfl rfl rfl rfl nofun nofun
  · split
    · exact .quiet (.inl .rfl) rfl rfl rfl rfl rfl nofun nofun
    · rename_i registered hregistered
      obtain ⟨-, rfl⟩ := register_eq hregistered
      refine .quiet ?_ rfl rfl rfl rfl rfl nofun nofun
      have hoccupied : SessionState.Occupied { s with roster := s.roster.insert slot epoch } :=
        OrdMap.size_pos.mpr ⟨slot, by simp⟩
      by_cases hbefore : s.Occupied
      · exact .inl ⟨fun _ => hbefore, fun _ => hoccupied⟩
      · exact .inr ⟨by simpa [flips] using hbefore, rfl⟩

theorem effects_leave (slot : SlotId) (order : List SlotId) (s : SessionState) :
    Effects (leave slot order) s (next (leave slot order) s).1 (next (leave slot order) s).2 := by
  simp only [next]
  split
  · exact .quiet (.inl .rfl) rfl rfl rfl rfl rfl nofun nofun
  · refine .quiet ?_ rfl rfl rfl rfl rfl nofun nofun
    by_cases hafter : (s.deregister slot).Occupied
    · refine .inl ⟨fun _ => ?_, fun _ => hafter⟩
      -- who still has a seat had one
      obtain ⟨other, hother⟩ := occupied_iff.mp hafter
      refine occupied_iff.mpr ⟨other, ?_⟩
      simp only [seated, deregister, OrdMap.get?_erase] at hother ⊢
      split at hother
      · cases hother
      · exact hother
    · exact .inr ⟨by simpa [flips] using hafter, rfl⟩

theorem effects_report (point : ReportPresence) (s : SessionState) (hown : (report point).foreign = false) :
    Effects (report point) s (next (report point) s).1 (next (report point) s).2 := by
  cases point with
  | sample order =>
    by_cases hlocked : s.rosterLocked = true
    · have hnext : next (report (.sample order)) s = (s, .going (report (.sample order))) := by
        simp [next, ReportPresence.next, hlocked, call]
      rw [hnext]
      exact .quiet (.inl .rfl) rfl rfl rfl rfl rfl id (by rintro ⟨⟩)
    · have hnext : next (report (.sample order)) s = (s, .going (report (.recordOwn s.roster.size order))) := by
        simp [next, ReportPresence.next, hlocked, call]
      rw [hnext]
      refine ⟨rfl, .inl .rfl, fun live hlive => ?_, .inl rfl, fun _ => .inl rfl,
        by rintro _ ⟨⟩, .inl rfl, .inr ⟨rfl, by rintro ⟨⟩⟩⟩
      obtain rfl : s.roster.size = live := by simpa [carries, sampled] using hlive
      exact Iff.rfl
  | recordOwn live order =>
    have hreports : ∀ p ∈ (recordOwn s.presence live).1, (p.reportsPlayers = true ↔ 0 < live) := recordOwn_reports
    have hrecorded : ∃ n, (report (.recordOwn live order)).sampled = some n ∧
        ∀ p ∈ (recordOwn s.presence live).1, (p.reportsPlayers = true ↔ 0 < n) := ⟨live, rfl, hreports⟩
    cases hchanged : (recordOwn s.presence live).2 with
    | true =>
      have hnext : next (report (.recordOwn live order)) s =
          ({ s with presence := (recordOwn s.presence live).1 }, .going (report (.snapshot order))) := by
        simp [next, ReportPresence.next, hchanged, call]
      rw [hnext]
      exact ⟨rfl, .inl .rfl,
        by rintro _ ⟨⟩, .inr hrecorded, fun _ => .inr hrecorded, by rintro _ ⟨⟩, .inr rfl, .inr ⟨rfl, by rintro ⟨⟩⟩⟩
    | false =>
      have hnext : next (report (.recordOwn live order)) s =
          ({ s with presence := (recordOwn s.presence live).1 }, .done ()) := by
        simp [next, ReportPresence.next, hchanged, call]
      rw [hnext]
      exact ⟨rfl, .inl .rfl, by rintro _ ⟨⟩, .inr hrecorded, fun _ => .inr hrecorded, by rintro _ ⟨⟩,
        .inl (recordOwn_verdict hchanged), .inr ⟨rfl, by rintro ⟨⟩⟩⟩
  | recordPeer peer live order => cases hown
  | snapshot order =>
    simp only [next, ReportPresence.next]
    split <;> exact .quiet (.inl .rfl) rfl rfl rfl rfl rfl (by rintro ⟨⟩) fun _ => .inl rfl
  | verdict held order =>
    cases hverdict : verdict s.presence with
    | none =>
      have hnext : next (report (.verdict held order)) s = (s, .going (report .maybeStart)) := by
        simp [next, ReportPresence.next, hverdict, call]
      rw [hnext]
      exact .quiet (.inl .rfl) rfl rfl rfl rfl rfl (by rintro ⟨⟩) fun _ => .inr hverdict
    | some authority =>
      have hnext : next (report (.verdict held order)) s = (s, .going (report (.setAuthority authority held order))) := by
        simp [next, ReportPresence.next, hverdict, call]
      rw [hnext]
      refine ⟨rfl, .inl .rfl,
        by rintro _ ⟨⟩, .inl rfl, by rintro ⟨⟩, fun a ha => ?_, .inl rfl, .inr ⟨rfl, fun _ => .inl rfl⟩⟩
      exact hverdict.trans ha
  | setAuthority authority held order =>
    have hset : (report (.setAuthority authority held order)).sets =
      some (s.maker.setAuthority authority held order).1.authority := by
      rw [DecisionMaker.setAuthority_authority]
      rfl
    exact ⟨rfl, .inl .rfl, by rintro _ ⟨⟩, .inl rfl, by rintro ⟨⟩, by rintro _ ⟨⟩, .inl rfl, .inl ⟨hset, rfl⟩⟩
  | maybeStart => exact .quiet (.inl .rfl) rfl DecisionMaker.maybeStart_authority rfl rfl rfl (by rintro ⟨⟩) (by rintro ⟨⟩)

theorem effects (task : ChangeRoster) (s : SessionState) (hown : task.foreign = false) :
    Effects task s (task.next s).1 (task.next s).2 := by
  cases task with
  | join slot epoch order => exact effects_join slot epoch order s
  | leave slot order => exact effects_leave slot order s
  | report point => exact effects_report point s hown

end ChangeRoster

/-! ## Runs -/

abbrev RosterWorld := World SessionState ChangeRoster Unit

section Runs

variable {w : RosterWorld} {i : Nat} {task : ChangeRoster}

/-- **The condition on a run**: the roster is not filled or emptied between a report's sample and its
    record, and nothing is recorded between a verdict and its setting of the authority. -/
def InStep (w : RosterWorld) : Move ChangeRoster → Prop
  | .start task => task.isEntry = true
  | .advance i => ∀ task ∈ w.pointOf (.advance i),
      (task.flips w.shared = true → ∀ p ∈ w.tasks, p.carries ChangeRoster.sampled = none) ∧
      (task.sampled.isSome = true → ∀ p ∈ w.tasks, p.carries ChangeRoster.sets = none)

instance (w : RosterWorld) : (m : Move ChangeRoster) → Decidable (InStep w m)
  | .start task => inferInstanceAs (Decidable (task.isEntry = true))
  | .advance i => inferInstanceAs (Decidable (∀ task ∈ w.pointOf (.advance i), _ ∧ _))

/-- **What holds while links come and go**: the report is the roster's and the authority the verdict's,
    or a task will make it so. -/
structure Tracks (w : RosterWorld) : Prop where
  own : ∀ task, .going task ∈ w.tasks → task.foreign = false
  sampled : ∀ p ∈ w.tasks, ∀ live, p.carries ChangeRoster.sampled = some live → (0 < live ↔ w.shared.Occupied)
  reported : w.shared.Reported ∨ ∃ p ∈ w.tasks, p.at ChangeRoster.reporting = true
  sets : ∀ p ∈ w.tasks, ∀ a, p.carries ChangeRoster.sets = some a → SessionPresence.verdict w.shared.presence = some a
  follows : w.shared.Follows ∨ ∃ p ∈ w.tasks, p.at ChangeRoster.settling = true

/-- The world after a piece of the task `i`. -/
abbrev reseated (w : RosterWorld) (i : Nat) (task : ChangeRoster) : RosterWorld :=
  ⟨(task.next w.shared).1, w.tasks.set i (task.next w.shared).2⟩

theorem Tracks.reported_advance (h : Tracks w) (hi : w.tasks[i]? = some (.going task)) :
    (reseated w i task).shared.Reported ∨ ∃ p ∈ (reseated w i task).tasks, p.at ChangeRoster.reporting = true := by
  have hmem : .going task ∈ w.tasks := mem_of_getElem? hi
  have heffects := task.effects w.shared (h.own task hmem)
  have hself : (task.next w.shared).2 ∈ w.tasks.set i (task.next w.shared).2 := mem_set_self hi
  rcases heffects.roster with hroster | ⟨-, hreporting⟩
  swap
  · exact .inr ⟨_, hself, hreporting⟩
  -- a count that was sampled is still right when it is recorded
  have hrecorded : (∃ live, task.sampled = some live ∧ ∀ p ∈ (task.next w.shared).1.presence,
    (p.reportsPlayers = true ↔ 0 < live)) →
      (reseated w i task).shared.Reported := by
    rintro ⟨live, hlive, hreports⟩ p hp
    exact (hreports p hp).trans ((h.sampled _ hmem live hlive).trans hroster.symm)
  rcases h.reported with hreported | hreporting
  · rcases heffects.presence with hpresence | hrecords
    · left
      intro p hp
      rw [hpresence] at hp
      exact (hreported p hp).trans hroster.symm
    · exact .inl (hrecorded hrecords)
  · rcases exists_set _ hi hreporting with hmine | hother
    · rcases heffects.reports hmine with hstill | hrecords
      · exact .inr ⟨_, hself, hstill⟩
      · exact .inl (hrecorded hrecords)
    · exact .inr hother

theorem Tracks.follows_advance (h : Tracks w) (hi : w.tasks[i]? = some (.going task)) :
    (reseated w i task).shared.Follows ∨ ∃ p ∈ (reseated w i task).tasks, p.at ChangeRoster.settling = true := by
  have hmem : .going task ∈ w.tasks := mem_of_getElem? hi
  have heffects := task.effects w.shared (h.own task hmem)
  have hself : (task.next w.shared).2 ∈ w.tasks.set i (task.next w.shared).2 := mem_set_self hi
  rcases heffects.verdict with hverdict | hsettling
  swap
  · exact .inr ⟨_, hself, hsettling⟩
  rcases heffects.authority with ⟨hsets, hpresence⟩ | ⟨hauthority, hgoes⟩
  · -- the authority that is set is the verdict's
    left
    intro a ha
    have hset := h.sets _ hmem _ hsets
    rw [hverdict, hset] at ha
    exact Option.some.inj ha
  · rcases h.follows with hfollows | hsettling
    · left
      intro a ha
      rw [hverdict] at ha
      exact hauthority.trans (hfollows a ha)
    · rcases exists_set _ hi hsettling with hmine | hother
      · rcases hgoes hmine with hstill | hnone
        · exact .inr ⟨_, hself, hstill⟩
        · left
          intro a ha
          rw [hnone] at ha
          cases ha
      · exact .inr hother

theorem Tracks.advance (h : Tracks w) (hi : w.tasks[i]? = some (.going task)) (hok : InStep w (.advance i)) :
    Tracks (reseated w i task) := by
  have hmem : .going task ∈ w.tasks := mem_of_getElem? hi
  have heffects := task.effects w.shared (h.own task hmem)
  obtain ⟨hflips, hrecords⟩ := hok task (by simp [pointOf, hi])
  refine ⟨fun task' hp => ?_, fun p hp live hlive => ?_, h.reported_advance hi, fun p hp a ha => ?_, h.follows_advance hi⟩
  · rcases mem_of_mem_set hp with heq | hp
    · have hown := heffects.own
      rw [← heq] at hown
      exact hown
    · exact h.own task' hp
  · rcases mem_of_mem_set hp with rfl | hp
    · exact heffects.samples live hlive
    · rcases heffects.roster with hroster | ⟨hflip, -⟩
      · exact (h.sampled p hp live hlive).trans hroster.symm
      · rw [hflips hflip p hp] at hlive
        cases hlive
  · rcases mem_of_mem_set hp with rfl | hp
    · exact heffects.derives a ha
    · rcases heffects.presence with hpresence | ⟨live, hlive, -⟩
      · rw [hpresence]
        exact h.sets p hp a ha
      · rw [hrecords (by simp [hlive]) p hp] at ha
        cases ha

theorem Tracks.move (h : Tracks w) {m : Move ChangeRoster} (hok : InStep w m) : Tracks (w.move ChangeRoster.next m) := by
  refine move_cases m h ?_ ?_
  · rintro task rfl
    have hentry : task.isEntry = true := hok
    -- a task that begins carries nothing
    have hcases : ∀ p ∈ w.tasks ++ [.going task], p ∈ w.tasks ∨ p = .going task := fun p hp => by simpa using hp
    have hnothing : task.foreign = false ∧ task.sampled = none ∧ task.sets = none := by
      cases task with
      | report => cases hentry
      | _ => exact ⟨rfl, rfl, rfl⟩
    refine ⟨fun task' hp => ?_, fun p hp live hlive => ?_, ?_, fun p hp a ha => ?_, ?_⟩
    · rcases hcases _ hp with hp | heq
      · exact h.own task' hp
      · cases heq
        exact hnothing.1
    · rcases hcases p hp with hp | rfl
      · exact h.sampled p hp live hlive
      · exact absurd hlive (by simp [carries, hnothing.2.1])
    · exact h.reported.imp id fun ⟨p, hp, hat⟩ => ⟨p, mem_append_left _ hp, hat⟩
    · rcases hcases p hp with hp | rfl
      · exact h.sets p hp a ha
      · exact absurd ha (by simp [carries, hnothing.2.2])
    · exact h.follows.imp id fun ⟨p, hp, hat⟩ => ⟨p, mem_append_left _ hp, hat⟩
  · rintro i task rfl _ hi
    exact h.advance hi hok

/-- **A relay at rest reports its roster and has the authority of its verdict**, after every run in step
    from a session where that is so. -/
theorem presence_follows_the_roster (s : SessionState) (hreported : s.Reported) (hfollows : s.Follows)
    (moves : List (Move ChangeRoster)) (hrun : World.Obeys ChangeRoster.next InStep (World.init s) moves) :
    let w : RosterWorld := (init s).run next moves
    w.Idle → (∀ p, w.shared.presence = some p → (p.reportsPlayers = true ↔ 0 < w.shared.roster.size)) ∧
      ∀ a, verdict w.shared.presence = some a → w.shared.maker.authority = a := by
  intro w hidle
  have hstart : Tracks (init s) := ⟨by simp [init], by simp [init], .inl hreported, by simp [init], .inl hfollows⟩
  have htracks : Tracks w := run_invariant (fun _ _ h hok => h.move hok) hstart hrun
  -- at rest no task is on its way
  have hnone : ∀ f : ChangeRoster → Bool, ¬ ∃ p ∈ w.tasks, p.at f = true := by
    rintro f ⟨p, hp, hat⟩
    cases p with
    | going task => exact hidle task hp
    | done => cases hat
  exact ⟨htracks.reported.resolve_right (hnone _), htracks.follows.resolve_right (hnone _)⟩

/-- A relay that is first in the order, with slot 1 seated. -/
def serving : SessionState :=
  { SessionState.fresh (DecisionMaker.create ⟨1, 8⟩ .selfRelay ∅ false false) 10 with
      roster := OrdMap.empty.insert 1 7
      presence := (SessionPresence.recordOwn (some (.setOrder none [.selfRelay, .peer 9])) 1).1 }

/-- Slot 1 leaves and slot 2 comes while that is reported: the relay hands over, and takes over again. -/
theorem presence_follows_the_roster_returned :
    let moves : List (Move ChangeRoster) :=
      [.start (.leave 1 []), .start (.join 2 8 [])] ++ [0, 0, 0, 0, 1, 0, 0, 1, 1, 1, 1, 0, 1, 1].map .advance
    let w : RosterWorld := (init serving).run next moves
    w.Idle ∧ (∀ p, w.shared.presence = some p → (p.reportsPlayers = true ↔ 0 < w.shared.roster.size)) ∧
      ∀ a, verdict w.shared.presence = some a → w.shared.maker.authority = a := by
  intro moves w
  have hidle : w.Idle := by decide +kernel
  exact ⟨hidle, presence_follows_the_roster serving (by decide +kernel) (by decide +kernel) moves (by decide +kernel) hidle⟩

/-- A zero sampled before slot 2 took its seat is recorded after its one: the relay serves slot 2, and
    has handed over. And a handover derived before slot 2's report is set after it: the relay reports
    slot 2, is first in the order, and has handed over. -/
theorem presence_is_overtaken :
    let begin : List (Move ChangeRoster) := [.start (.leave 1 []), .start (.join 2 8 [])]
    let unreported : RosterWorld := (init serving).run next (begin ++ [0, 0, 1, 1, 1, 0, 0, 0, 0, 0].map .advance)
    let unset : RosterWorld := (init serving).run next
      (begin ++ [0, 0, 0, 0, 0, 1, 1, 1, 1, 1, 1, 1, 0, 0].map .advance)
    (serving.Reported ∧ serving.Follows) ∧
    (unreported.Idle ∧ 0 < unreported.shared.roster.size ∧
      unreported.shared.presence.any (fun p => !p.reportsPlayers) = true ∧ unreported.shared.maker.authority = .peer) ∧
    (unset.Idle ∧ verdict unset.shared.presence = some .selfRelay ∧ unset.shared.maker.authority = .peer) := by
  decide +kernel

end Runs

end RallyPoint.Relay
