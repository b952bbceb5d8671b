import RallyPoint.Relay.Sync.Tracker

/-!
# `Relay.Correctness.SyncTracker` — a verdict names no honest slot

With one value per ordinal for every honest report, an honest slot can be in the minority only if a
single slot outvotes it, which a strict majority of two votes or more cannot do. A named slot is
excluded, and an excluded slot has no observation on file, so it is not named again by the same
comparator.

- `Fair`: the observations on file are fair to the honest slots, and the excluded slots have none.
- `Outcome`: what a judgement returns and does to the excluded set.
-/

namespace RallyPoint.Relay

open Lib List Option OrdMap

namespace SyncTracker

variable {t t' : SyncTracker} {honest : SlotId → Prop} {value : Nat → SyncValue}

/-! ## What is on file -/

/-- The slot's observation of an ordinal. -/
def observation (t : SyncTracker) (ordinal : Nat) (slot : SlotId) : Option SyncObservation :=
  (t.observedAt ordinal).get? slot

/-- `t'` holds no observation that `t` does not, and excludes the same slots. -/
structure Forgets (t t' : SyncTracker) : Prop where
  observed : ∀ n s o, t'.observation n s = some o → t.observation n s = some o
  excluded : t'.excluded = t.excluded

theorem Forgets.refl (t : SyncTracker) : Forgets t t := ⟨fun _ _ _ h => h, rfl⟩

variable {reports : OrdMap SlotId SyncObservation} {slot : SlotId} {o : SyncObservation}
  {t'' : SyncTracker} {ordinal : Nat} {s : SlotId} {n : Nat}

theorem Forgets.trans (h₁ : Forgets t t') (h₂ : Forgets t' t'') : Forgets t t'' :=
  ⟨fun n s o h => h₁.observed n s o (h₂.observed n s o h), h₂.excluded.trans h₁.excluded⟩

theorem observation_eq_some :
    t.observation n s = some o ↔ ∃ reports, t.pending.get? n = some reports ∧ reports.get? s = some o := by
  unfold observation observedAt
  cases t.pending.get? n with
  | none => simp
  | some reports => simp

/-- Taking an ordinal out of `pending`, and whatever becomes of the base. -/
theorem forgets_erase (t : SyncTracker) (ordinal base : Nat) :
    Forgets t { t with pending := t.pending.erase ordinal, baseOrdinal := base } := by
  refine ⟨?_, rfl⟩
  intro n s o h
  obtain ⟨reports, hr, ho⟩ := observation_eq_some.mp h
  exact observation_eq_some.mpr ⟨reports, (get?_erase_eq_some.mp hr).2, ho⟩

theorem retire_forgets (t : SyncTracker) : Forgets t t.retire := forgets_erase t _ _

theorem evictLoop_forgets (fuel : Nat) (t : SyncTracker) : Forgets t (evictLoop fuel t) := by
  induction fuel generalizing t with
  | zero => exact .refl t
  | succ fuel ih =>
    unfold evictLoop
    split
    · exact .refl t
    · split
      · exact .refl t
      · dsimp only
        split
        · exact (forgets_erase t _ _).trans (ih _)
        · exact (forgets_erase t _ t.baseOrdinal).trans (ih _)

/-- Removing a member takes exactly its observations out. -/
theorem observation_removeMember
    (h : (t.removeMember slot).observation n s = some o) : s ≠ slot ∧ t.observation n s = some o := by
  obtain ⟨reports, hr, ho⟩ := observation_eq_some.mp h
  obtain ⟨reports', hr', rfl⟩ :=
    map_eq_some_iff.mp ((get?_mapValues t.pending (fun _ reports => reports.erase slot) n).symm.trans hr)
  obtain ⟨hne, ho⟩ := get?_erase_eq_some.mp ho
  exact ⟨hne, observation_eq_some.mpr ⟨reports', hr', ho⟩⟩

theorem removeMember_forgets (t : SyncTracker) (slot : SlotId) : Forgets t (t.removeMember slot) :=
  ⟨fun _ _ _ h => (observation_removeMember h).2, rfl⟩

/-- Filing adds at most the one observation. -/
theorem observation_file {o' : SyncObservation} (h : (t.file ordinal slot o).observation n s = some o') :
    t.observation n s = some o' ∨ n = ordinal ∧ s = slot ∧ o' = o := by
  obtain ⟨reports, hr, ho⟩ := observation_eq_some.mp h
  simp only [file] at hr
  rw [get?_insert] at hr
  split at hr
  · rename_i hn
    subst hn
    cases hr
    split at ho
    · exact .inl ho
    · rw [get?_insert] at ho
      split at ho
      · rename_i hs
        exact .inr ⟨rfl, hs, (some.inj ho).symm⟩
      · exact .inl ho
  · exact .inl (observation_eq_some.mpr ⟨reports, hr, ho⟩)

/-! ## Fairness -/

/-- Every honest report on file is its ordinal's value, and no excluded slot has an observation on file. -/
structure Fair (honest : SlotId → Prop) (value : Nat → SyncValue) (t : SyncTracker) : Prop where
  reports : ∀ n s r, t.observation n s = some (.report r) → honest s → r.value = value n
  excluded : ∀ n, ∀ s ∈ t.excluded, t.observation n s = none

theorem empty_fair : Fair honest value empty :=
  ⟨fun n s r h => by simp [observation, observedAt, empty] at h, fun n s h => by simp [empty] at h⟩

section Fair

variable (h : t.Fair honest value)
include h

theorem Fair.forgets (hf : Forgets t t') : t'.Fair honest value := by
  refine ⟨fun n s r hr => h.reports n s r (hf.observed n s _ hr), ?_⟩
  intro n s hs
  by_contra hne
  obtain ⟨o, ho⟩ := ne_none_iff_exists'.mp hne
  rw [hf.excluded] at hs
  have hold := hf.observed n s o ho
  rw [h.excluded n s hs] at hold
  cases hold

theorem Fair.file (ordinal : Nat) (o : SyncObservation)
    (hslot : slot ∉ t.excluded) (ho : ∀ r, o = .report r → honest slot → r.value = value ordinal) :
    (t.file ordinal slot o).Fair honest value := by
  constructor
  · intro n s r hr hs
    obtain hr | ⟨rfl, rfl, heq⟩ := observation_file hr
    · exact h.reports n s r hr hs
    · exact ho r heq.symm hs
  · intro n s hs
    by_contra hne
    obtain ⟨o', ho'⟩ := ne_none_iff_exists'.mp hne
    obtain hold | ⟨-, rfl, -⟩ := observation_file ho'
    · rw [h.excluded n s hs] at hold; cases hold
    · exact hslot hs

theorem Fair.recordSkipped (hslot : slot ∉ t.excluded) (since : Nat)
    (gap : SyncGap) : (t.recordSkipped slot since gap).Fair honest value ∧
      (t.recordSkipped slot since gap).excluded = t.excluded := by
  refine foldlRecOn (motive := fun t' : SyncTracker => t'.Fair honest value ∧ t'.excluded = t.excluded) _ _ ⟨h, rfl⟩ ?_
  rintro t' ⟨hfair, hex⟩ n -
  split
  · exact ⟨hfair, hex⟩
  · refine ⟨hfair.file n .skipped (hex ▸ hslot) ?_, hex⟩
    intro r hr
    cases hr

theorem Fair.noteSkipped (hslot : slot ∉ t.excluded) (since : Nat)
    (gap : Option SyncGap) : (t.noteSkipped slot since gap).Fair honest value ∧
      (t.noteSkipped slot since gap).excluded = t.excluded := by
  cases gap with
  | none => exact ⟨h, rfl⟩
  | some gap => exact h.recordSkipped hslot since gap

/-- Anchoring and joining file nothing. -/
theorem Fair.joined (slot : SlotId) (ordinal : Nat) :
    ((t.anchored ordinal).join slot ordinal).1.Fair honest value ∧
      ((t.anchored ordinal).join slot ordinal).1.excluded = t.excluded := by
  unfold anchored
  split
  · exact ⟨⟨h.reports, h.excluded⟩, rfl⟩
  · exact ⟨⟨h.reports, h.excluded⟩, rfl⟩

end Fair

/-! ## Judging an ordinal -/

theorem mem_comparable {v : SyncValue} :
    (s, v) ∈ comparable ordinal reports ↔
      ∃ r, reports.get? s = some (.report r) ∧ r.kind = expectedKindForOrdinal ordinal ∧ r.value = v := by
  unfold comparable
  rw [mem_filterMap]
  constructor
  · rintro ⟨⟨s', o⟩, hmem, heq⟩
    cases o with
    | skipped => cases heq
    | report r =>
      simp only [ite_none_right_eq_some, some.injEq, Prod.mk.injEq] at heq
      obtain ⟨hkind, rfl, rfl⟩ := heq
      exact ⟨r, get?_eq_some.mpr hmem, hkind, rfl⟩
  · rintro ⟨r, hr, hkind, rfl⟩
    exact ⟨(s, .report r), get?_eq_some.mp hr, by simp [hkind]⟩

/-- Each slot is on the ballot once. -/
theorem comparable_nodup (ordinal : Nat) (reports : OrdMap SlotId SyncObservation) :
    ((comparable ordinal reports).map Prod.fst).Nodup := by
  have hsorted : (comparable ordinal reports).Pairwise fun a b => a.1 < b.1 := by
    unfold comparable
    rw [pairwise_filterMap]
    refine reports.sorted.imp ?_
    rintro ⟨s, o⟩ ⟨s', o'⟩ hlt ⟨a, v⟩ ha ⟨a', v'⟩ ha'
    cases o <;> cases o' <;> simp_all
  exact List.Pairwise.map _ (fun _ _ h => ne_of_lt h) hsorted

/-- What a judgement gives: the named slots are new to the excluded set, distinct, and not honest. -/
structure Outcome (honest : SlotId → Prop) (t t' : SyncTracker) (verdict : Option SyncDivergence) : Prop where
  grows : t.excluded ⊆ t'.excluded
  nodup : ∀ d, verdict = some d → d.diverged.Nodup
  fresh : ∀ d, verdict = some d → ∀ s ∈ d.diverged, s ∉ t.excluded
  barred : ∀ d, verdict = some d → ∀ s ∈ d.diverged, s ∈ t'.excluded
  fair : ∀ d, verdict = some d → ∀ s ∈ d.diverged, ¬ honest s

theorem Outcome.silent (h : t'.excluded = t.excluded) : Outcome honest t t' none :=
  ⟨fun _ hs => h ▸ hs, nofun, nofun, nofun, nofun⟩

/-- A judgement after a silent step. -/
theorem Outcome.trans {verdict : Option SyncDivergence} (h₁ : Outcome honest t t' none)
    (h₂ : Outcome honest t' t'' verdict) : Outcome honest t t'' verdict :=
  ⟨fun _ hs => h₂.grows (h₁.grows hs), h₂.nodup, fun d hd s hs hin => h₂.fresh d hd s hs (h₁.grows hin), h₂.barred, h₂.fair⟩

theorem excludeMembers_spec (h : t.Fair honest value) (slots : List SlotId) :
    (slots.foldl excludeMember t).Fair honest value ∧ ∀ s, s ∈ (slots.foldl excludeMember t).excluded ↔
      s ∈ slots ∨ s ∈ t.excluded := by
  induction slots generalizing t with
  | nil => exact ⟨h, fun s => by simp⟩
  | cons slot slots ih =>
    have hstep : (t.excludeMember slot).Fair honest value := by
      constructor
      · intro n s r hr
        exact h.reports n s r (observation_removeMember hr).2
      · intro n s hs
        by_contra hne
        obtain ⟨o, ho⟩ := ne_none_iff_exists'.mp hne
        obtain ⟨hns, hold⟩ := observation_removeMember ho
        obtain heq | hin := Finset.mem_insert.mp hs
        · exact hns heq
        · have hnone := h.excluded n s hin
          have hold' : t.observation n s = some o := hold
          rw [hnone] at hold'
          cases hold'
    obtain ⟨hfair, hmem⟩ := ih hstep
    refine ⟨hfair, fun s => ?_⟩
    rw [foldl_cons, hmem s]
    have hex : s ∈ (t.excludeMember slot).excluded ↔ s = slot ∨ s ∈ t.excluded := Finset.mem_insert
    rw [hex, mem_cons]
    tauto

variable (hone : ∀ a b, ¬ honest a → ¬ honest b → a = b)
include hone

/-- **Judging one ordinal.** An honest slot on the ballot votes the ordinal's value; so does the
    majority, unless one slot outvotes it. -/
theorem Fair.evaluate (h : t.Fair honest value)
    (hreports : ∀ s r, reports.get? s = some (.report r) → honest s → r.value = value ordinal)
    (hexcluded : ∀ s ∈ t.excluded, reports.get? s = none) :
    (t.evaluate ordinal reports).1.Fair honest value ∧
      Outcome honest t (t.evaluate ordinal reports).1 (t.evaluate ordinal reports).2 := by
  unfold SyncTracker.evaluate
  simp only
  split
  · exact ⟨h, .silent rfl⟩
  · split
    · -- a majority: the others on the ballot are accused and excluded
      rename_i majority hmaj
      obtain ⟨hfair, hmem⟩ := excludeMembers_spec h (((comparable ordinal reports).filter (·.2 ≠ majority)).map (·.1))
      have hnodup := comparable_nodup ordinal reports
      have hballot : ∀ s ∈ ((comparable ordinal reports).filter (·.2 ≠ majority)).map (·.1),
          ∃ v, (s, v) ∈ comparable ordinal reports ∧ v ≠ majority := by
        intro s hs
        obtain ⟨⟨s', v⟩, hv, rfl⟩ := mem_map.mp hs
        obtain ⟨hv, hne⟩ := mem_filter.mp hv
        exact ⟨v, hv, of_decide_eq_true hne⟩
      refine ⟨⟨hfair.reports, hfair.excluded⟩, ⟨?_, ?_, ?_, ?_, ?_⟩⟩
      · intro s hs
        exact (hmem s).mpr (.inr hs)
      · rintro d ⟨⟩
        exact hnodup.sublist (filter_sublist.map _)
      · rintro d ⟨⟩ s hs hex
        obtain ⟨v, hv, -⟩ := hballot s hs
        obtain ⟨r, hr, -⟩ := mem_comparable.mp hv
        rw [hexcluded s hex] at hr
        cases hr
      · rintro d ⟨⟩ s hs
        exact (hmem s).mpr (.inl hs)
      · rintro d ⟨⟩ s hs hhonest
        obtain ⟨v, hv, hne⟩ := hballot s hs
        have hagree : ∀ x ∈ comparable ordinal reports, honest x.1 → x.2 = value ordinal := by
          rintro ⟨s', v'⟩ hx hh
          obtain ⟨r, hr, -, rfl⟩ := mem_comparable.mp hx
          exact hreports s' r hr hh
        have hmajv := Majority.majority_of_honest hnodup hagree hone le_rfl hmaj hv hhonest
        exact hne ((hagree _ hv hhonest).trans hmajv.symm)
    · -- no majority: the verdict names nobody
      refine ⟨⟨h.reports, h.excluded⟩, ⟨fun _ hs => hs, ?_, ?_, ?_, ?_⟩⟩
      all_goals rintro d ⟨⟩
      · exact nodup_nil
      all_goals rintro s ⟨⟩

/-- **The judging loop**, by induction on its rounds. -/
theorem Fair.evaluateLoop (margin fuel : Nat) (h : t.Fair honest value) :
    (evaluateLoop margin fuel t).1.Fair honest value ∧
      Outcome honest t (evaluateLoop margin fuel t).1 (evaluateLoop margin fuel t).2 := by
  induction fuel generalizing t with
  | zero => exact ⟨h, .silent rfl⟩
  | succ fuel ih =>
    unfold SyncTracker.evaluateLoop
    have hretired := h.forgets (retire_forgets t)
    have hquiet : Outcome honest t t.retire none := .silent rfl
    split
    · exact ⟨h, .silent rfl⟩
    · split
      · exact ⟨h, .silent rfl⟩
      · split
        · obtain ⟨hfair, hout⟩ := ih hretired
          exact ⟨hfair, hquiet.trans hout⟩
        · split
          · have hjudged := hretired.evaluate hone (h.reports t.baseOrdinal) (h.excluded t.baseOrdinal)
            split
            · rename_i heq
              rw [heq] at hjudged
              exact ⟨hjudged.1, hquiet.trans hjudged.2⟩
            · rename_i heq
              rw [heq] at hjudged
              obtain ⟨hfair, hout⟩ := ih hjudged.1
              exact ⟨hfair, (hquiet.trans hjudged.2).trans hout⟩
          · exact ⟨h, .silent rfl⟩

theorem Fair.settle (margin : Nat) (h : t.Fair honest value) :
    (t.settle margin).1.Fair honest value ∧ Outcome honest t (t.settle margin).1 (t.settle margin).2 := by
  have hloop : (t.evaluateReady margin).1.Fair honest value ∧
      Outcome honest t (t.evaluateReady margin).1 (t.evaluateReady margin).2 := h.evaluateLoop hone margin _
  unfold SyncTracker.settle
  split
  · rename_i heq
    rw [heq] at hloop
    exact hloop
  · rename_i t₁ heq
    rw [heq] at hloop
    have hevict := evictLoop_forgets t₁.pending.size t₁
    exact ⟨hloop.1.forgets hevict, hloop.2.trans (.silent hevict.excluded)⟩

/-- **One report.** If honest slots report their ordinals' values, the comparator stays fair and its
    verdict names no honest slot and none named before. -/
theorem Fair.record (h : t.Fair honest value) (slot : SlotId) (ordinal : Nat) (report : SyncReport)
    (skipped : Option SyncGap) (margin : Nat) (hreport : honest slot → report.value = value ordinal) :
    (t.record slot ordinal report skipped margin).1.Fair honest value ∧
      Outcome honest t (t.record slot ordinal report skipped margin).1
        (t.record slot ordinal report skipped margin).2 := by
  unfold SyncTracker.record
  split
  · exact ⟨h, .silent rfl⟩
  · rename_i hslot
    split
    · exact ⟨h, .silent rfl⟩
    · obtain ⟨hfair, hex⟩ := h.joined slot ordinal
      dsimp only
      split
      · exact ⟨hfair, .silent hex⟩
      · obtain ⟨hskip, hskipex⟩ := hfair.noteSkipped (hex ▸ hslot) ((t.anchored ordinal).join slot ordinal).2.since skipped
        have hfiled := hskip.file ordinal (.report report) (hskipex ▸ hex ▸ hslot) (by rintro r ⟨⟩ hh; exact hreport hh)
        have hquiet : Outcome honest t ((((t.anchored ordinal).join slot ordinal).1.noteSkipped slot
            ((t.anchored ordinal).join slot ordinal).2.since skipped).file ordinal slot (.report report)) none :=
          .silent (hskipex.trans hex)
        obtain ⟨hset, hout⟩ := hfiled.settle hone margin
        exact ⟨hset, hquiet.trans hout⟩

end SyncTracker

end RallyPoint.Relay
