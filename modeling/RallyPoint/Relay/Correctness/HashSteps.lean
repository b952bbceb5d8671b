import Mathlib.Order.Interval.Finset.Nat
import RallyPoint.Relay.Sync.Hashes

/-!
# `Relay.Correctness.HashSteps` — the steps of a hash comparator, and the reports it keeps

A report that was taken is on file until its step leaves the comparator, and a step that has left never
comes back. That rests on where the steps in flight are: a pending step is at most a window past what is
confirmable, and everything below `retired_below` has been judged or dropped.

- `Wf`: which steps are pending and judged, and what their reports are.
- `Kept`: a report is on file, or its step is gone, or the comparator is dormant.
- One lemma for each change of the steps: it keeps `Wf` and carries `Kept` on.
-/

namespace RallyPoint.Relay

open Lib List OrdMap StateHashTracker

namespace StateHashTracker

variable {t t' t'' : StateHashTracker} {honest : SlotId → Prop} {value : Nat → Nat} {step : Nat}

/-- A step clients report: a positive multiple of the interval that fits a `u64`. -/
structure IsStep (step : Nat) : Prop where
  on : onInterval step = true
  le : step ≤ u64Max

theorem onInterval_iff : onInterval step = true ↔ stateHashInterval ≤ step ∧ step % stateHashInterval = 0 := by
  simp [onInterval]

/-! ## The reports on file -/

/-- Each slot reports a step once, and the honest ones report its value. -/
structure Ballot (honest : SlotId → Prop) (value : Nat → Nat) (step : Nat) (reports : HashReports) : Prop where
  nodup : (reports.map Prod.fst).Nodup
  agree : ∀ x ∈ reports, honest x.1 → x.2 = value step

theorem Ballot.nil : Ballot honest value step [] := ⟨nodup_nil, nofun⟩

/-- Filing keeps what is there, and the slot is there afterwards. -/
theorem mem_file (reports : HashReports) (slot : SlotId) (hash : Nat) :
    (∀ x ∈ reports, x ∈ (reports.file slot hash).1) ∧ slot ∈ (reports.file slot hash).1.map Prod.fst := by
  unfold HashReports.file
  split
  · rename_i hany
    obtain ⟨x, hx, heq⟩ := any_eq_true.mp hany
    exact ⟨fun y hy => hy, mem_map.mpr ⟨x, hx, of_decide_eq_true heq⟩⟩
  · exact ⟨fun y hy => mem_append_left _ hy, by simp⟩

variable {slot : SlotId} {p : PendingStep} {hash : Nat}

theorem Ballot.file {reports : HashReports} (h : Ballot honest value step reports)
    (hhash : honest slot → hash = value step) : Ballot honest value step (reports.file slot hash).1 := by
  unfold HashReports.file
  split
  · exact h
  · rename_i hany
    constructor
    · rw [map_append, nodup_append]
      refine ⟨h.nodup, nodup_singleton _, ?_⟩
      rintro a ha b hb rfl
      obtain ⟨x, hx, rfl⟩ := mem_map.mp ha
      refine hany (any_eq_true.mpr ⟨x, hx, ?_⟩)
      simpa using hb
    · intro x hx
      obtain hx | hx := mem_append.mp hx
      · exact h.agree x hx
      · cases mem_singleton.mp hx
        exact hhash

/-! ## Which steps are in flight -/

/-- A pending step is near what is confirmable, and its deadline runs only once it is. -/
structure PendingStep.Ok (honest : SlotId → Prop) (value : Nat → Nat) (confirmableUntil step : Nat) (p : PendingStep) :
    Prop where
  isStep : IsStep step
  near : step ≤ confirmableUntil + stateHashWindow * stateHashInterval
  confirmable : p.confirmableAt.isSome → step ≤ confirmableUntil
  ballot : Ballot honest value step p.reports

/-- A judged step is below `retired_below` and no longer pending. -/
structure JudgedStep.Ok (honest : SlotId → Prop) (value : Nat → Nat) (t : StateHashTracker) (step : Nat) (j : JudgedStep) :
    Prop where
  isStep : IsStep step
  below : step < t.retiredBelow
  apart : t.pending.get? step = none
  ballot : Ballot honest value step j.reports

/-- What is in flight is well-formed. -/
structure Wf (honest : SlotId → Prop) (value : Nat → Nat) (t : StateHashTracker) : Prop where
  pending : ∀ s p, t.pending.get? s = some p → PendingStep.Ok honest value t.confirmableUntil s p
  judged : ∀ s j, t.judged.get? s = some j → JudgedStep.Ok honest value t s j
  retired : t.retiredBelow ≤ t.confirmableUntil + 1

theorem empty_wf : Wf honest value empty := ⟨nofun, nofun, Nat.zero_le _⟩

/-- The step has left both maps, for good. -/
structure Gone (t : StateHashTracker) (step : Nat) : Prop where
  below : step < t.retiredBelow
  pending : t.pending.get? step = none
  judged : t.judged.get? step = none

/-- The slot's report of the step is on file. -/
def Has (t : StateHashTracker) (slot : SlotId) (step : Nat) : Prop :=
  (∃ p, t.pending.get? step = some p ∧ slot ∈ p.reports.map Prod.fst) ∨ ∃ j,
    t.judged.get? step = some j ∧ slot ∈ j.reports.map Prod.fst

/-- A report that was taken is on file, or its step is gone, or the comparator is dormant. -/
def Kept (t : StateHashTracker) (slot : SlotId) (step : Nat) : Prop := t.dormant = true ∨ t.Gone step ∨ t.Has slot step

/-- Whatever is kept stays kept. -/
def Carries (t t' : StateHashTracker) : Prop := ∀ slot step, t.Kept slot step → t'.Kept slot step

theorem Carries.refl (t : StateHashTracker) : Carries t t := fun _ _ h => h

theorem Carries.trans (h₁ : Carries t t') (h₂ : Carries t' t'') : Carries t t'' := fun slot s h => h₂ slot s (h₁ slot s h)

/-- `t'` has the steps of `t`; the slots' standing may differ, but a dormant comparator stays dormant. -/
structure SameSteps (t t' : StateHashTracker) : Prop where
  pending : t'.pending = t.pending
  judged : t'.judged = t.judged
  retiredBelow : t'.retiredBelow = t.retiredBelow
  confirmableUntil : t'.confirmableUntil = t.confirmableUntil
  dormant : t.dormant = true → t'.dormant = true

theorem SameSteps.carries (h : SameSteps t t') : Carries t t' := by
  rintro slot s (hd | hg | hh)
  · exact .inl (h.dormant hd)
  · refine .inr (.inl ⟨?_, ?_, ?_⟩)
    · rw [h.retiredBelow]; exact hg.below
    · rw [h.pending]; exact hg.pending
    · rw [h.judged]; exact hg.judged
  · refine .inr (.inr ?_)
    unfold Has
    rw [h.pending, h.judged]
    exact hh

theorem Wf.of_sameSteps (h : Wf honest value t) (hs : SameSteps t t') : Wf honest value t' := by
  refine ⟨fun s p hp => ?_, fun s j hj => ?_, ?_⟩
  · rw [hs.pending] at hp
    rw [hs.confirmableUntil]
    exact h.pending s p hp
  · rw [hs.judged] at hj
    have hok := h.judged s j hj
    refine ⟨hok.isStep, ?_, ?_, hok.ballot⟩
    · rw [hs.retiredBelow]; exact hok.below
    · rw [hs.pending]; exact hok.apart
  · rw [hs.retiredBelow, hs.confirmableUntil]
    exact h.retired

/-! ## Dropping the oldest pending step -/

/-- With too many steps in flight the oldest is confirmable: only a window's worth lies past that. -/
theorem Wf.oldest_confirmable (h : Wf honest value t) (hmany : stateHashWindow < t.pending.size)
    (hhead : t.pending.entries.head? = some (step, p)) : step ≤ t.confirmableUntil := by
  by_contra hpast
  have hkeys : t.pending.keys ⊆
      (Finset.Ioc (t.confirmableUntil / stateHashInterval) (t.confirmableUntil / stateHashInterval + stateHashWindow)).image
        (· * stateHashInterval) := by
    intro s hs
    obtain ⟨q, hq⟩ := mem_keys.mp hs
    have hle : step ≤ s := by
      have hmem := get?_eq_some.mp hq
      obtain ⟨rest, hrest⟩ := head?_eq_some_iff.mp hhead
      have hsorted := t.pending.sorted
      rw [hrest] at hmem hsorted
      obtain heq | hin := mem_cons.mp hmem
      · cases heq; exact le_rfl
      · exact ((pairwise_cons.mp hsorted).1 _ hin).le
    have hnear := (h.pending s q hq).near
    have hon := (onInterval_iff.mp (h.pending s q hq).isStep.on).2
    unfold stateHashInterval stateHashWindow at *
    rw [Finset.mem_image]
    refine ⟨s / 8, Finset.mem_Ioc.mpr ⟨?_, ?_⟩, ?_⟩ <;> omega
  have hcard := Finset.card_le_card hkeys
  rw [card_keys] at hcard
  have himage := Finset.card_image_le (s := Finset.Ioc (t.confirmableUntil / stateHashInterval)
    (t.confirmableUntil / stateHashInterval + stateHashWindow)) (f := (· * stateHashInterval))
  rw [Nat.card_Ioc] at himage
  omega

theorem Wf.evictOne (h : Wf honest value t) (hp : t.pending.get? step = some p)
    (hle : step ≤ t.confirmableUntil) :
    let t' := { t with pending := t.pending.erase step, retiredBelow := max t.retiredBelow (step + 1) }
    Wf honest value t' ∧ Carries t t' := by
  have hnone : ∀ s, t.pending.get? s = none → (t.pending.erase step).get? s = none := by
    intro s hs
    rw [get?_erase, hs, ite_self]
  refine ⟨⟨?_, ?_, max_le h.retired (Nat.succ_le_succ hle)⟩, ?_⟩
  · intro s q hq
    exact h.pending s q (get?_erase_eq_some.mp hq).2
  · intro s j hj
    have hok := h.judged s j hj
    exact ⟨hok.isStep, lt_max_of_lt_left hok.below, hnone s hok.apart, hok.ballot⟩
  intro slot s hkept
  obtain hd | hg | ⟨q, hq, hslot⟩ | hj := hkept
  · exact .inl hd
  · exact .inr (.inl ⟨lt_max_of_lt_left hg.below, hnone s hg.pending, hg.judged⟩)
  · by_cases heq : s = step
    · -- the step itself: it was pending, so it is not judged, and now it is gone
      subst heq
      refine Or.inr (Or.inl ⟨lt_max_of_lt_right (Nat.lt_succ_self s), by rw [get?_erase, if_pos rfl], ?_⟩)
      cases hj : t.judged.get? s with
      | none => rfl
      | some j => rw [(h.judged s j hj).apart] at hq; cases hq
    · exact Or.inr (Or.inr (Or.inl ⟨q, by rw [get?_erase, if_neg heq]; exact hq, hslot⟩))
  · exact .inr (.inr (.inr hj))

/-- **The eviction loop**, by induction on its rounds. -/
theorem Wf.evictLoop (fuel : Nat) (h : Wf honest value t) :
    Wf honest value (evictLoop fuel t) ∧ Carries t (evictLoop fuel t) := by
  induction fuel generalizing t with
  | zero => exact ⟨h, .refl t⟩
  | succ fuel ih =>
    unfold evictLoop
    split
    · exact ⟨h, .refl t⟩
    · rename_i hmany
      split
      · exact ⟨h, .refl t⟩
      · rename_i step p hhead
        have hp : t.pending.get? step = some p := get?_eq_some.mpr (mem_of_mem_head? hhead)
        obtain ⟨hwf, hcarries⟩ := h.evictOne hp (h.oldest_confirmable (not_le.mp hmany) hhead)
        obtain ⟨hwf', hcarries'⟩ := ih hwf
        exact ⟨hwf', hcarries.trans hcarries'⟩

/-! ## A report -/

theorem retired_iff : t.retired step = true ↔ step < t.retiredBelow ∧ t.pending.get? step = none := by
  simp [retired]

theorem horizon_le (t : StateHashTracker) : t.horizon ≤ t.confirmableUntil +
    stateHashWindow * stateHashInterval ∧ t.horizon ≤ u64Max :=
  ⟨min_le_left _ _, min_le_right _ _⟩

/-- A judged step is replaced by one with at least its reports. -/
theorem Wf.setJudged (h : Wf honest value t) {j k : JudgedStep} (hj : t.judged.get? step = some j)
    (hballot : Ballot honest value step k.reports)
    (hkeep : ∀ slot ∈ j.reports.map Prod.fst, slot ∈ k.reports.map Prod.fst) :
    let t' := { t with judged := t.judged.insert step k }
    Wf honest value t' ∧ Carries t t' := by
  refine ⟨⟨h.pending, ?_, h.retired⟩, ?_⟩
  · intro s i hi
    rcases get?_insert_eq_some.mp hi with ⟨rfl, rfl⟩ | ⟨-, hi⟩
    · have hok := h.judged s j hj
      exact ⟨hok.isStep, hok.below, hok.apart, hballot⟩
    · have hok := h.judged s i hi
      exact ⟨hok.isStep, hok.below, hok.apart, hok.ballot⟩
  · rintro other s (hd | hg | hp | ⟨i, hi, hin⟩)
    · exact .inl hd
    · refine .inr (.inl ⟨hg.below, hg.pending, ?_⟩)
      have hne : s ≠ step := by rintro rfl; cases hg.judged.symm.trans hj
      show (t.judged.insert step k).get? s = none
      rw [get?_insert, if_neg hne]
      exact hg.judged
    · exact .inr (.inr (.inl hp))
    · refine .inr (.inr (.inr ?_))
      by_cases heq : s = step
      · subst heq
        cases hj.symm.trans hi
        exact ⟨k, get?_insert_self _ _ _, hkeep other hin⟩
      · exact ⟨i, by show (t.judged.insert step k).get? s = some i; rw [get?_insert, if_neg heq]; exact hi, hin⟩

/-- What a change of one pending step has to respect. -/
structure Refills (honest : SlotId → Prop) (value : Nat → Nat) (t : StateHashTracker) (step : Nat) (q : PendingStep) :
    Prop where
  ok : PendingStep.Ok honest value t.confirmableUntil step q
  unjudged : t.judged.get? step = none
  present : ¬ t.Gone step
  keeps : ∀ p, t.pending.get? step = some p → ∀ slot ∈ p.reports.map Prod.fst, slot ∈ q.reports.map Prod.fst

section Wf

variable (h : Wf honest value t)
include h

/-- A pending step is added or replaced. -/
theorem Wf.refill {q : PendingStep} (hq : Refills honest value t step q) :
    let t' := { t with pending := t.pending.insert step q }
    Wf honest value t' ∧ Carries t t' := by
  refine ⟨⟨?_, ?_, h.retired⟩, ?_⟩
  · intro s p hp
    rcases get?_insert_eq_some.mp hp with ⟨rfl, rfl⟩ | ⟨-, hp⟩
    · exact hq.ok
    · exact h.pending s p hp
  · intro s j hj
    have hne : s ≠ step := by rintro rfl; cases hq.unjudged.symm.trans hj
    have hok := h.judged s j hj
    refine ⟨hok.isStep, hok.below, ?_, hok.ballot⟩
    show (t.pending.insert step q).get? s = none
    rw [get?_insert, if_neg hne]
    exact hok.apart
  · -- nothing kept is lost: the step itself was not gone, and its reports stay
    rintro slot s (hd | hg | ⟨p, hp, hin⟩ | hj)
    · exact .inl hd
    · have hne : s ≠ step := by rintro rfl; exact hq.present hg
      refine .inr (.inl ⟨hg.below, ?_, hg.judged⟩)
      show (t.pending.insert step q).get? s = none
      rw [get?_insert, if_neg hne]
      exact hg.pending
    · refine .inr (.inr (.inl ?_))
      by_cases heq : s = step
      · subst heq
        exact ⟨q, get?_insert_self _ _ _, hq.keeps p hp slot hin⟩
      · exact ⟨p, by show (t.pending.insert step q).get? s = some p; rw [get?_insert, if_neg heq]; exact hp, hin⟩
    · exact .inr (.inr (.inr hj))

/-- What a lookup with the default finds of a pending step. -/
theorem Wf.pendingBallot (step : Nat) : Ballot honest value step ((t.pending.get? step).getD .empty).reports := by
  cases hp : t.pending.get? step with
  | none => exact .nil
  | some p => exact (h.pending step p hp).ballot

theorem Wf.fileReport (hhash : honest slot → hash = value step)
    (now : Nat) (hon : onInterval step = true) (hopen : ¬ t.Gone step) (hle : step ≤ t.horizon) :
    Wf honest value (t.fileReport slot step hash now) ∧ Carries t (t.fileReport slot step hash now) ∧
      (t.fileReport slot step hash now).Has slot step := by
  unfold StateHashTracker.fileReport
  split
  · rename_i j hj _
    obtain ⟨hkeep, hnew⟩ := mem_file j.reports slot hash
    have hfiled : Ballot honest value step (j.file slot hash now).reports := (h.judged step j hj).ballot.file hhash
    obtain ⟨hwf, hcarries⟩ := h.setJudged hj hfiled (by
      intro other hin
      obtain ⟨x, hx, rfl⟩ := mem_map.mp hin
      exact mem_map.mpr ⟨x, hkeep x hx, rfl⟩)
    exact ⟨hwf, hcarries, .inr ⟨_, get?_insert_self _ _ _, hnew⟩⟩
  · rename_i hnot
    -- a judged step is retired, so a report that is not filed there finds none
    have hunjudged : t.judged.get? step = none := by
      cases hj : t.judged.get? step with
      | none => rfl
      | some j =>
        have hok := h.judged step j hj
        exact absurd (retired_iff.mpr ⟨hok.below, hok.apart⟩) (hnot j hj)
    obtain ⟨hnear, hmax⟩ := horizon_le t
    obtain ⟨hkeep, hnew⟩ := mem_file ((t.pending.get? step).getD .empty).reports slot hash
    have hfill : Refills honest value t step (((t.pending.get? step).getD .empty).file slot hash now) := by
      refine ⟨⟨⟨hon, hle.trans hmax⟩, hle.trans hnear, ?_, (h.pendingBallot step).file hhash⟩, hunjudged, hopen, ?_⟩
      · intro hconf
        cases hp : t.pending.get? step with
        | none => rw [hp] at hconf; cases hconf
        | some p => rw [hp] at hconf; exact (h.pending step p hp).confirmable hconf
      · intro p hp other hin
        obtain ⟨x, hx, rfl⟩ := mem_map.mp hin
        refine mem_map.mpr ⟨x, hkeep x ?_, rfl⟩
        rw [hp]
        exact hx
    obtain ⟨hwf, hcarries⟩ := h.refill hfill
    exact ⟨hwf, hcarries, .inl ⟨_, get?_insert_self _ _ _, hnew⟩⟩

/-- **One report**: everything kept stays kept, and so is the report, if its step is within the horizon. -/
theorem Wf.record (hhash : honest slot → hash = value step) (now : Nat) :
    Wf honest value (t.record slot step hash now) ∧ Carries t (t.record slot step hash now) ∧
      (slot ∉ t.excluded → IsStep step → step ≤ t.confirmableUntil + stateHashWindow * stateHashInterval →
        (t.record slot step hash now).Kept slot step) := by
  unfold StateHashTracker.record
  split
  · rename_i hout
    refine ⟨h, .refl t, fun hin _ _ => .inl ?_⟩
    exact hout.resolve_right hin
  · split
    · rename_i hrefused
      refine ⟨h, .refl t, fun _ hstep hle => ?_⟩
      obtain hoff | ⟨hret, hunjudged⟩ | hfar := hrefused
      · rw [hstep.on] at hoff; cases hoff
      · obtain ⟨hbelow, hpending⟩ := retired_iff.mp hret
        exact .inr (.inl ⟨hbelow, hpending, Option.isNone_iff_eq_none.mp hunjudged⟩)
      · exact absurd (le_min hle hstep.le) (not_le.mpr hfar)
    · rename_i htaken
      rw [not_or, not_or, not_lt] at htaken
      obtain ⟨hon, hopen, hle⟩ := htaken
      have hpresent : ¬ t.Gone step := fun hg =>
        hopen ⟨retired_iff.mpr ⟨hg.below, hg.pending⟩, Option.isNone_iff_eq_none.mpr hg.judged⟩
      obtain ⟨hwf, hcarries, hhas⟩ := h.fileReport hhash now (by simpa using hon) hpresent hle
      obtain ⟨hwf', hcarries'⟩ := hwf.evictLoop (t.fileReport slot step hash now).pending.size
      exact ⟨hwf', hcarries.trans hcarries', fun _ _ _ => hcarries' slot step (.inr (.inr hhas))⟩

end Wf

/-! ## Forwarded turns -/

theorem nextMultipleOf_spec {a b c : Nat} (hb : 0 < b) (h : nextMultipleOf a b = some c) : a ≤ c ∧ c % b = 0 := by
  unfold nextMultipleOf at h
  split at h
  · rename_i hmod
    cases h
    exact ⟨le_rfl, hmod⟩
  · unfold checkedAdd at h
    split at h
    · cases h
      have hlt := Nat.mod_lt a hb
      refine ⟨Nat.le_add_right _ _, ?_⟩
      have heq : a + (b - a % b) = b * (a / b + 1) := by
        rw [Nat.mul_add, Nat.mul_one]
        have := Nat.div_add_mod a b
        omega
      rw [heq]
      exact Nat.mul_mod_right _ _
    · cases h

/-- The steps a `note_forwarded` confirms: those from `step` on up to `until'`. -/
theorem Wf.confirmSteps {now until' : Nat} (fuel : Nat) {pending : OrdMap Nat PendingStep}
    (h : Wf honest value { t with confirmableUntil := until' }) (hmod : step % stateHashInterval = 0)
    (hpos : stateHashInterval ≤ step) (hretired : t.retiredBelow ≤ step)
    (hret : confirmSteps now until' fuel step t.pending = some pending) :
    Wf honest value { t with pending, confirmableUntil := until' } ∧
      Carries { t with confirmableUntil := until' } { t with pending, confirmableUntil := until' } := by
  induction fuel generalizing t step with
  | zero =>
    cases hret
    exact ⟨h, .refl _⟩
  | succ fuel ih =>
    unfold confirmSteps at hret
    split at hret
    · rename_i hle
      unfold checkedAdd at hret
      split at hret
      · rename_i next hnext
        split at hnext
        · rename_i hmax
          cases hnext
          -- the loop starts at `retired_below`, and every judged step is below it
          have hunjudged : t.judged.get? step = none := by
            cases hj : t.judged.get? step with
            | none => rfl
            | some j => exact absurd (h.judged step j hj).below (not_lt.mpr hretired)
          have hfill : Refills honest value { t with confirmableUntil := until' } step
              (((t.pending.get? step).getD .empty).confirm now) := by
            refine ⟨⟨⟨onInterval_iff.mpr ⟨hpos, hmod⟩, (Nat.le_add_right _ _).trans hmax⟩, Nat.le_add_right_of_le hle,
              fun _ => hle, h.pendingBallot step⟩, hunjudged, fun hg => absurd hg.below (not_lt.mpr hretired), ?_⟩
            intro p hp slot hin
            have hp' : t.pending.get? step = some p := hp
            rw [hp']
            exact hin
          obtain ⟨hwf, hcarries⟩ := h.refill hfill
          obtain ⟨hwf', hcarries'⟩ := ih (t := { t with pending := t.pending.insert step _ }) hwf
            (by rw [Nat.add_mod_right]; exact hmod) (Nat.le_add_right_of_le hpos) (Nat.le_add_right_of_le hretired) hret
          exact ⟨hwf', hcarries.trans hcarries'⟩
        · cases hnext
      · cases hret
    · cases hret
      exact ⟨h, .refl _⟩

/-- The slots' standing: who is excluded, how many turns each has sent, and whether anything is judged. -/
structure SameStanding (t t' : StateHashTracker) : Prop where
  excluded : t'.excluded = t.excluded
  forwarded : t'.forwarded = t.forwarded
  dormant : t'.dormant = t.dormant

theorem evictLoop_standing (fuel : Nat) (t : StateHashTracker) : SameStanding t (evictLoop fuel t) := by
  induction fuel generalizing t with
  | zero => exact ⟨rfl, rfl, rfl⟩
  | succ fuel ih =>
    unfold evictLoop
    split
    · exact ⟨rfl, rfl, rfl⟩
    · split
      · exact ⟨rfl, rfl, rfl⟩
      · rename_i step _ _
        have hrest := ih { t with pending := t.pending.erase step, retiredBelow := max t.retiredBelow (step + 1) }
        exact ⟨hrest.excluded, hrest.forwarded, hrest.dormant⟩

theorem record_standing (t : StateHashTracker) (slot : SlotId) (step hash now : Nat) :
    SameStanding t (t.record slot step hash now) := by
  unfold record
  split
  · exact ⟨rfl, rfl, rfl⟩
  · split
    · exact ⟨rfl, rfl, rfl⟩
    · have hfile : SameStanding t (t.fileReport slot step hash now) := by
        unfold fileReport
        split <;> exact ⟨rfl, rfl, rfl⟩
      have hevict := evictLoop_standing (t.fileReport slot step hash now).pending.size (t.fileReport slot step hash now)
      exact ⟨hevict.excluded.trans hfile.excluded, hevict.forwarded.trans hfile.forwarded,
        hevict.dormant.trans hfile.dormant⟩

/-- What is confirmable only grows. -/
theorem Wf.raise (h : Wf honest value t) {until' : Nat} (hle : t.confirmableUntil ≤ until') :
    Wf honest value { t with confirmableUntil := until' } := by
  refine ⟨?_, fun s j hj => ?_, h.retired.trans (Nat.succ_le_succ hle)⟩
  · intro s p hp
    have hok := h.pending s p hp
    exact ⟨hok.isStep, hok.near.trans (Nat.add_le_add_right hle _), fun hc => (hok.confirmable hc).trans hle, hok.ballot⟩
  · have hok := h.judged s j hj
    exact ⟨hok.isStep, hok.below, hok.apart, hok.ballot⟩

/-- **Forwarded turns** move what is confirmable on, and keep what is kept. -/
theorem Wf.noteForwarded (h : Wf honest value t) {count now : Nat} {required : List SlotId}
    (hret : t.noteForwarded slot count now required = some t') :
    Wf honest value t' ∧ Carries t t' ∧
      SameStanding { t with forwarded := Function.update t.forwarded slot (max (t.forwarded slot) count) } t' := by
  have hsame : ∀ t : StateHashTracker, SameSteps t
      { t with forwarded := Function.update t.forwarded slot (max (t.forwarded slot) count) } :=
    fun _ => ⟨rfl, rfl, rfl, rfl, id⟩
  unfold StateHashTracker.noteForwarded at hret
  dsimp only at hret
  generalize hu : forwardedByAll _ required = until' at hret
  split at hret
  · cases hret
    exact ⟨h.of_sameSteps (hsame t), (hsame t).carries, ⟨rfl, rfl, rfl⟩⟩
  · rename_i hmore
    rw [not_le] at hmore
    obtain ⟨first, hfirst, hret⟩ := Option.bind_eq_some_iff.mp hret
    obtain ⟨pending, hpending, hret⟩ := Option.bind_eq_some_iff.mp hret
    cases hret
    obtain ⟨hle, hmod⟩ := nextMultipleOf_spec (by decide) hfirst
    -- the first step is past what was confirmable, so it is past every retired one
    have hpos : stateHashInterval ≤ first := by
      unfold stateHashInterval at *
      omega
    have hstart : max (max first stateHashInterval) t.retiredBelow = first := by
      rw [max_eq_left hpos, max_eq_left (h.retired.trans hle)]
    rw [hstart] at hpending
    obtain ⟨hwf, hcarries⟩ := (h.raise hmore.le).confirmSteps _ hmod hpos (h.retired.trans hle) hpending
    obtain ⟨hevict, hcarries'⟩ := (hwf.of_sameSteps (hsame _)).evictLoop pending.size
    have hraised : Carries t { t with confirmableUntil := until' } := by
      rintro other s (hd | hg | hh)
      · exact .inl hd
      · exact .inr (.inl ⟨hg.below, hg.pending, hg.judged⟩)
      · exact .inr (.inr hh)
    have hstanding := evictLoop_standing pending.size { t with
      forwarded := Function.update t.forwarded slot (max (t.forwarded slot) count)
      pending := pending
      confirmableUntil := until' }
    exact ⟨hevict, (hraised.trans hcarries).trans ((hsame _).carries.trans hcarries'),
      ⟨hstanding.excluded, hstanding.forwarded, hstanding.dormant⟩⟩

/-! ## Judged steps -/

/-- A pending step that is confirmable is retired to the judged ones. -/
theorem Wf.retireStep (h : Wf honest value t) (hp : t.pending.get? step = some p)
    (hconf : p.confirmableAt.isSome) (now : Nat) :
    Wf honest value (t.retireStep step now p) ∧ Carries t (t.retireStep step now p) := by
  have hpok := h.pending step p hp
  have hgone : ∀ s, t.pending.get? s = none → (t.pending.erase step).get? s = none := by
    intro s hs
    rw [get?_erase, hs, ite_self]
  refine ⟨⟨?_, ?_, max_le h.retired (Nat.succ_le_succ (hpok.confirmable hconf))⟩, ?_⟩
  · intro s q hq
    exact h.pending s q (get?_erase_eq_some.mp hq).2
  · intro s j hj
    rcases get?_insert_eq_some.mp hj with ⟨rfl, rfl⟩ | ⟨-, hj⟩
    · exact ⟨hpok.isStep, lt_max_of_lt_right (Nat.lt_succ_self s),
        by show (t.pending.erase s).get? s = none; rw [get?_erase, if_pos rfl], hpok.ballot⟩
    · have hok := h.judged s j hj
      exact ⟨hok.isStep, lt_max_of_lt_left hok.below, hgone s hok.apart, hok.ballot⟩
  · rintro slot s (hd | hg | ⟨q, hq, hin⟩ | ⟨j, hj, hin⟩)
    · exact .inl hd
    · have hne : s ≠ step := by rintro rfl; cases hg.pending.symm.trans hp
      refine .inr (.inl ⟨lt_max_of_lt_left hg.below, hgone s hg.pending, ?_⟩)
      show (t.judged.insert step _).get? s = none
      rw [get?_insert, if_neg hne]
      exact hg.judged
    · by_cases heq : s = step
      · -- the step's own reports move with it
        subst heq
        cases hp.symm.trans hq
        exact .inr (.inr (.inr ⟨_, get?_insert_self _ _ _, hin⟩))
      · refine .inr (.inr (.inl ⟨q, ?_, hin⟩))
        show (t.pending.erase step).get? s = some q
        rw [get?_erase, if_neg heq]
        exact hq
    · have hne : s ≠ step := by
        rintro rfl
        rw [(h.judged s j hj).apart] at hp
        cases hp
      refine .inr (.inr (.inr ⟨j, ?_, hin⟩))
      show (t.judged.insert step _).get? s = some j
      rw [get?_insert, if_neg hne]
      exact hj

/-- A judged step is dropped: it is gone. -/
theorem Wf.dropJudged (h : Wf honest value t) (step : Nat) :
    let t' := { t with judged := t.judged.erase step }
    Wf honest value t' ∧ Carries t t' := by
  refine ⟨⟨h.pending, ?_, h.retired⟩, ?_⟩
  · intro s j hj
    have hok := h.judged s j (get?_erase_eq_some.mp hj).2
    exact ⟨hok.isStep, hok.below, hok.apart, hok.ballot⟩
  · rintro slot s (hd | hg | hp | ⟨j, hj, hin⟩)
    · exact .inl hd
    · refine .inr (.inl ⟨hg.below, hg.pending, ?_⟩)
      show (t.judged.erase step).get? s = none
      rw [get?_erase, hg.judged, ite_self]
    · exact .inr (.inr (.inl hp))
    · by_cases heq : s = step
      · subst heq
        have hok := h.judged s j hj
        refine .inr (.inl ⟨hok.below, hok.apart, ?_⟩)
        show (t.judged.erase s).get? s = none
        rw [get?_erase, if_pos rfl]
      · refine .inr (.inr (.inr ⟨j, ?_, hin⟩))
        show (t.judged.erase step).get? s = some j
        rw [get?_erase, if_neg heq]
        exact hj

end StateHashTracker

end RallyPoint.Relay
