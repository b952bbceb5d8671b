import Mathlib.Data.List.TakeWhile
import Mathlib.Order.Lattice.Nat
import RallyPoint.Relay.Clock

/-!
# `Relay.Correctness.Clock` — final deadlines stay, copies converge

A copy of the clock is read through its pause function, the stopped time before each step. `Sound` is
what every reachable copy is like, and `Later` what any call does to one: the anchor stays, the limit and
the base grow, and the pause function stays between the new base and the old limit. A deadline that is
final is therefore kept for as long as it is told.

Past the limit, a merge makes the pause function the maximum of the two copies' (`mergeStops_before`).
Which frames a copy has merged, in which order and how often, is then forgotten past all their limits.
-/

namespace RallyPoint.Relay

open Lib List

/-! ## Sound copies -/

/-- The stops ascend between base and limit, and the base is as far behind the limit as stops are kept. -/
structure StopsSound (baseStep finalThrough : Nat) (stops : List Stop) : Prop where
  base : baseStep ≤ finalThrough - keptStopSteps
  sorted : stopJumps.Ascending stops
  within : ∀ stop ∈ stops, baseStep ≤ stop.step ∧ stop.step ≤ finalThrough

variable {s : Nat} {stops : List Stop} {stop : Stop}
variable {c c' : SessionClock} {t : CopiedStops} {now : Int} {frame : SessionClockFrame} {u final : Nat}

theorem StopsSound.raise {base final final' : Nat} (h : StopsSound base final stops) (hle : final ≤ final') :
    StopsSound base final' stops :=
  ⟨h.base.trans (Nat.sub_le_sub_right hle _), h.sorted,
    fun stop hs => ⟨(h.within stop hs).1, (h.within stop hs).2.trans hle⟩⟩

/-- A stop at the limit, or a longer one, counts past the limit only. -/
theorem before_append_limit (init : List Stop) {limit : Nat} (hstop : stop.step = limit)
    (hs : s ≤ limit) : stopJumps.before (init ++ [stop]) s = stopJumps.before init s := by
  rw [Jumps.before_append, Nat.add_eq_left]
  refine stopJumps.before_eq_zero fun x hx => ?_
  obtain rfl := mem_singleton.mp hx
  exact hs.trans hstop.ge

/-- Stops before the limit and one at it. -/
theorem StopsSound.append_limit {base final : Nat} {init : List Stop} (h : StopsSound base final init)
    (hlt : ∀ x ∈ init, x.step < final) (hstop : stop.step = final) : StopsSound base final (init ++ [stop]) where
  base := h.base
  sorted := by
    refine pairwise_append.mpr ⟨h.sorted, pairwise_singleton _ _, ?_⟩
    intro x hx y hy
    obtain rfl := mem_singleton.mp hy
    exact (hlt x hx).trans_eq hstop.symm
  within := by
    intro x hx
    obtain hx | hx := mem_append.mp hx
    · exact h.within x hx
    · obtain rfl := mem_singleton.mp hx
      exact ⟨(h.base.trans (Nat.sub_le _ _)).trans_eq hstop.symm, hstop.le⟩

namespace SessionClock

structure Sound (c : SessionClock) : Prop where
  stops : StopsSound c.baseStep c.finalThrough c.stops
  anchored : ∀ a, c.anchor = some a → a.1 = anchorStep
  fresh : c.anchor = none → c.finalThrough = 0

theorem Sound.base_le (h : c.Sound) : c.baseStep ≤ c.finalThrough := h.stops.base.trans (Nat.sub_le _ _)

/-- What a call does to a copy. -/
structure Later (c c' : SessionClock) : Prop where
  anchor : ∀ a, c.anchor = some a → c'.anchor = some a
  final : c.finalThrough ≤ c'.finalThrough
  base : c.baseStep ≤ c'.baseStep
  pause : c.anchor.isSome → ∀ s, c'.baseStep ≤ s → s ≤ c.finalThrough → c'.pauseBefore s = c.pauseBefore s

theorem Later.refl (c : SessionClock) : c.Later c := ⟨fun _ h => h, le_rfl, le_rfl, fun _ _ _ _ => rfl⟩

theorem Later.trans {c' c'' : SessionClock} (h : c.Later c') (h' : c'.Later c'') : c.Later c'' where
  anchor a ha := h'.anchor a (h.anchor a ha)
  final := h.final.trans h'.final
  base := h.base.trans h'.base
  pause := by
    intro hanchor s hbase hle
    obtain ⟨a, ha⟩ := Option.isSome_iff_exists.mp hanchor
    rw [h'.pause (by rw [h.anchor a ha]; rfl) s hbase (hle.trans h.final)]
    exact h.pause hanchor s (h'.base.trans hbase) hle

variable {seq : Nat}

/-- The deadlines told: those from the base to the limit. -/
theorem dueAt_eq_some_iff {t : Int} :
    c.dueAt seq = some t ↔ ∃ a, c.anchor = some a ∧ a.1 ≤ seq ∧ seq ≤ c.finalThrough ∧ c.baseStep ≤ seq ∧
      t = a.2 + c.pauseBefore seq + stepsDuration (seq - a.1) := by
  unfold SessionClock.dueAt checkedSub
  cases c.anchor with
  | none => simp
  | some a =>
    by_cases hafter : a.1 ≤ seq
    · by_cases htold : c.finalThrough < seq ∨ seq < c.baseStep
      · simp only [hafter, htold, if_true, reduceCtorEq, false_iff]
        rintro ⟨_, _, _, hfinal, hbase, _⟩
        omega
      · have htold' := htold
        rw [not_or, not_lt, not_lt] at htold'
        simp [hafter, htold, htold', eq_comm]
    · simp [hafter]

theorem dueAt_eq_none (h : seq < c.baseStep) : c.dueAt seq = none := by
  rw [Option.eq_none_iff_forall_ne_some]
  intro t ht
  obtain ⟨_, _, _, _, hbase, _⟩ := dueAt_eq_some_iff.mp ht
  omega

/-- **A final deadline is kept**, until it is too old to be told. -/
theorem Later.dueAt (h : c.Later c') {t : Int} (hdue : c.dueAt seq = some t) :
    c'.dueAt seq = some t ∨ c'.dueAt seq = none ∧ seq < c'.baseStep := by
  obtain ⟨a, ha, hafter, hfinal, -, rfl⟩ := dueAt_eq_some_iff.mp hdue
  by_cases hbase : seq < c'.baseStep
  · exact .inr ⟨dueAt_eq_none hbase, hbase⟩
  · have hsame := h.pause (by rw [ha]; rfl) seq (not_lt.mp hbase) hfinal
    refine .inl (dueAt_eq_some_iff.mpr ⟨a, h.anchor a ha, hafter, hfinal.trans h.final, not_lt.mp hbase, ?_⟩)
    rw [hsame]

/-! ## Folding -/

section Fold

/-- Folding leaves the pause function as it is from the new base on. -/
theorem fold_pauseBefore (hs : c.finalThrough - keptStopSteps ≤ s) : c.fold.pauseBefore s = c.pauseBefore s := by
  have hearly : ∀ stop ∈ c.stops.takeWhile fun stop => stop.step < c.finalThrough - keptStopSteps, stop.step < s := by
    intro stop hstop
    have := mem_takeWhile_imp hstop
    simp only [decide_eq_true_eq] at this
    omega
  have hsum := stopJumps.before_eq_sum hearly
  have hsplit := stopJumps.before_takeWhile_add_dropWhile (l := c.stops) (fun stop =>
    stop.step < c.finalThrough - keptStopSteps) s
  unfold pauseBefore fold
  show c.basePause + ((c.stops.takeWhile _).map Stop.pause).sum + stopJumps.before (c.stops.dropWhile _) s = _
  rw [← hsplit, hsum, Nat.add_assoc]
  rfl

theorem fold_stops (h : StopsSound c.baseStep c.finalThrough c.stops) :
    StopsSound c.fold.baseStep c.fold.finalThrough c.fold.stops where
  base := max_le h.base le_rfl
  sorted := h.sorted.sublist (dropWhile_sublist _)
  within := by
    intro stop hstop
    have hmem := (dropWhile_sublist _).subset hstop
    exact ⟨max_le (h.within stop hmem).1 (h.sorted.le_of_mem_dropWhile hstop), (h.within stop hmem).2⟩

end Fold

/-- A folded copy with a new limit is later if its stops are the same up to the old limit. -/
theorem later_fold (hfinal : c.finalThrough ≤ final)
    (hpause : ∀ s, s ≤ c.finalThrough → stopJumps.before stops s = stopJumps.before c.stops s) :
    c.Later { c with stops, finalThrough := final }.fold where
  anchor _ ha := ha
  final := hfinal
  base := le_max_left _ _
  pause := by
    intro _ s hbase hle
    rw [fold_pauseBefore ((le_max_right _ _).trans hbase)]
    exact congrArg (c.basePause + ·) (hpause s hle)

/-! ## Anchoring and noting -/

section Calls

theorem anchorAt_sound (h : c.Sound) (newest : Nat) (due : Int) :
    (c.anchorAt newest due).1.Sound ∧ c.Later (c.anchorAt newest due).1 := by
  unfold anchorAt
  cases hanchor : c.anchor with
  | some a => exact ⟨h, .refl c⟩
  | none =>
    have hfinal : c.finalThrough ≤ max newest anchorStep + stallSlackSteps := by rw [h.fresh hanchor]; exact Nat.zero_le _
    constructor
    · refine ⟨h.stops.raise hfinal, ?_, ?_⟩
      · rintro a ⟨⟩
        rfl
      · rintro ⟨⟩
    · refine ⟨?_, hfinal, le_rfl, ?_⟩
      · intro a ha
        rw [hanchor] at ha
        cases ha
      · intro hsome
        rw [hanchor] at hsome
        cases hsome

/-- Bringing the limit up changes nothing else. -/
theorem raise_sound (h : c.Sound) (hle : c.finalThrough ≤ final) (hanchor : c.anchor.isSome) :
    { c with finalThrough := final }.Sound ∧ c.Later { c with finalThrough := final } := by
  refine ⟨⟨h.stops.raise hle, h.anchored, ?_⟩, ⟨fun _ ha => ha, hle, le_rfl, fun _ _ _ _ => rfl⟩⟩
  intro hnone
  have hnone : c.anchor = none := hnone
  rw [hnone] at hanchor
  cases hanchor

/-- What standing at the limit does to the stops: one at the limit grows, or is added there. -/
theorem standAtLimit_stops (h : StopsSound c.baseStep c.finalThrough c.stops) (stood : Nat) :
    ∃ stops, (c.standAtLimit stood).1 = { c with stops } ∧ StopsSound c.baseStep c.finalThrough stops ∧
      ∀ s, s ≤ c.finalThrough → stopJumps.before stops s = stopJumps.before c.stops s := by
  -- a stop after all the others
  have hadd : ∀ pause, (∀ stop ∈ c.stops, stop.step < c.finalThrough) →
      StopsSound c.baseStep c.finalThrough (c.stops ++ [⟨c.finalThrough, pause⟩]) ∧ ∀ s, s ≤ c.finalThrough →
          stopJumps.before (c.stops ++ [⟨c.finalThrough, pause⟩]) s = stopJumps.before c.stops s :=
    fun pause hlt => ⟨h.append_limit hlt rfl, fun s hs => before_append_limit c.stops rfl hs⟩
  unfold standAtLimit
  dsimp only
  split
  · exact ⟨c.stops, rfl, h, fun _ _ => rfl⟩
  · refine ⟨_, rfl, ?_⟩
    cases hlast : c.stops.getLast? with
    | none =>
      have hnil := getLast?_eq_none_iff.mp hlast
      exact hadd _ (by rw [hnil]; exact fun _ hx => nomatch hx)
    | some stop =>
      have hsplit : c.stops.dropLast ++ [stop] = c.stops := dropLast_append_getLast? stop hlast
      have hsorted := h.sorted
      rw [← hsplit] at hsorted
      have hinit : ∀ x ∈ c.stops.dropLast, x.step < stop.step :=
        fun x hx => (pairwise_append.mp hsorted).2.2 x hx stop mem_cons_self
      have hstop : stop.step ≤ c.finalThrough := (h.within stop (mem_of_getLast? hlast)).2
      dsimp only
      by_cases hat : stop.step = c.finalThrough
      · rw [if_pos hat]
        have hsub : StopsSound c.baseStep c.finalThrough c.stops.dropLast :=
          ⟨h.base, h.sorted.sublist (dropLast_sublist _), fun x hx => h.within x ((dropLast_sublist _).subset hx)⟩
        refine ⟨hsub.append_limit (fun x hx => (hinit x hx).trans_eq hat) hat, ?_⟩
        intro s hs
        conv_rhs => rw [← hsplit, before_append_limit _ hat hs]
        rw [before_append_limit _ (by exact hat) hs]
      · rw [if_neg hat]
        refine hadd _ fun x hx => ?_
        rw [← hsplit] at hx
        obtain hx | hx := mem_append.mp hx
        · exact (hinit x hx).trans_le hstop
        · obtain rfl := mem_singleton.mp hx
          exact lt_of_le_of_ne hstop hat

/-- New stops and a new limit, folded. -/
theorem fold_sound (h : c.Sound) (hanchor : c.anchor.isSome) {final : Nat}
    (hstops : StopsSound c.baseStep final stops) : { c with stops, finalThrough := final }.fold.Sound where
  stops := fold_stops hstops
  anchored := h.anchored
  fresh := by
    intro hnone
    have hnone : c.anchor = none := hnone
    rw [hnone] at hanchor
    cases hanchor

theorem goOnTo_sound (h : c.Sound) (hanchor : c.anchor.isSome) (limit : Nat) (now : Int) :
    (c.goOnTo limit now).1.Sound ∧ c.Later (c.goOnTo limit now).1 := by
  unfold goOnTo
  split
  · exact ⟨h, .refl c⟩
  · next hlimit =>
      have hle : c.finalThrough ≤ limit := (not_le.mp hlimit).le
      -- however long it stood
      have hgo : ∀ stood, { (c.standAtLimit stood).1 with finalThrough := limit }.fold.Sound ∧
          c.Later { (c.standAtLimit stood).1 with finalThrough := limit }.fold := by
        intro stood
        obtain ⟨stops, heq, hstops, hpause⟩ := standAtLimit_stops h.stops stood
        rw [heq]
        exact ⟨fold_sound h hanchor (hstops.raise hle), later_fold hle hpause⟩
      exact hgo _

/-- The copy once its limit is brought up to what the authority has confirmed itself. -/
def broughtUp (c : SessionClock) (newestBefore : Option Nat) : SessionClock :=
  match newestBefore with
  | some before => { c with finalThrough := max c.finalThrough (before + stallSlackSteps) }
  | none => c

theorem broughtUp_sound (h : c.Sound) (hanchor : c.anchor.isSome) (newestBefore : Option Nat) :
    (c.broughtUp newestBefore).Sound ∧ c.Later (c.broughtUp newestBefore) := by
  cases newestBefore with
  | none => exact ⟨h, .refl c⟩
  | some before => exact raise_sound h (le_max_left _ _) hanchor

theorem noteConfirmable_eq (hanchor : c.anchor ≠ none) (newestBefore : Option Nat) (newest : Nat) (now : Int) :
    c.noteConfirmable newestBefore newest now = (c.broughtUp newestBefore).goOnTo (newest + stallSlackSteps) now := by
  cases newestBefore with
  | none => exact if_neg hanchor
  | some before => exact if_neg hanchor

theorem noteConfirmable_sound (h : c.Sound) (newestBefore : Option Nat) (newest : Nat) (now : Int) :
    (c.noteConfirmable newestBefore newest now).1.Sound ∧ c.Later (c.noteConfirmable newestBefore newest now).1 := by
  by_cases hanchor : c.anchor = none
  · simp only [noteConfirmable, hanchor, if_true]
    exact ⟨h, .refl c⟩
  · have hsome : c.anchor.isSome := Option.isSome_iff_ne_none.mpr hanchor
    obtain ⟨hup, hlater⟩ := broughtUp_sound h hsome newestBefore
    obtain ⟨a, ha⟩ := Option.isSome_iff_exists.mp hsome
    have hgo := goOnTo_sound hup (by rw [hlater.anchor a ha]; rfl) (newest + stallSlackSteps) now
    rw [noteConfirmable_eq hanchor]
    exact ⟨hgo.1, hlater.trans hgo.2⟩

end Calls

/-! ## Frames -/

/-- A duration as the wire tells it. -/
def truncated (duration : Nat) : Nat := fromMicros (wholeMicros duration)

/-- The stops of a copy as another relay reads them off its frame. -/
def copied (c : SessionClock) : CopiedStops :=
  ⟨c.baseStep, truncated c.basePause, c.stops.map fun stop => ⟨stop.step, truncated stop.pause⟩⟩

theorem toFrame_eq (h : c.toFrame now = some frame) :
    ∃ a, c.anchor = some a ∧ frame.anchorStep = a.1 ∧ frame.finalThrough = c.finalThrough ∧ frame.baseStep = c.baseStep ∧
      frame.basePauseUs = wholeMicros c.basePause ∧
      frame.stops = c.stops.map fun stop => ⟨stop.step, wholeMicros stop.pause⟩ := by
  unfold toFrame at h
  cases hanchor : c.anchor with
  | none =>
    simp only [hanchor] at h
    cases h
  | some a =>
    simp only [hanchor] at h
    cases h
    exact ⟨a, rfl, rfl, rfl, rfl, rfl, rfl⟩

theorem copied_stops (h : c.Sound) : StopsSound c.baseStep c.finalThrough c.copied.stops where
  base := h.stops.base
  sorted := pairwise_map.mpr h.stops.sorted
  within := by
    intro stop hstop
    obtain ⟨stop, hmem, rfl⟩ := mem_map.mp hstop
    exact h.stops.within stop hmem

/-- Reading a frame drops no stop of a sound copy and finds them in order. -/
theorem fromFrame_toFrame (h : c.Sound)
    (hframe : c.toFrame now = some frame) : CopiedStops.fromFrame frame = c.copied := by
  obtain ⟨_, _, _, hfinal, hbase, hpause, hstops⟩ := toFrame_eq hframe
  have hall : frame.stops.filter
    (fun stop => frame.baseStep ≤ stop.step ∧ stop.step ≤ frame.finalThrough) = frame.stops := by
    refine filter_eq_self.mpr fun stop hstop => ?_
    rw [hstops] at hstop
    obtain ⟨stop, hmem, rfl⟩ := mem_map.mp hstop
    rw [hfinal, hbase]
    simpa using h.stops.within stop hmem
  have hmap : frame.stops.map (fun stop => (⟨stop.step, fromMicros stop.pauseUs⟩ : Stop)) = c.copied.stops := by
    rw [hstops, map_map]
    rfl
  have hsort : (c.copied.stops.insertionSort fun a b => a.step ≤ b.step) = c.copied.stops :=
    List.Pairwise.insertionSort_eq ((copied_stops h).sorted.imp fun hlt => le_of_lt hlt)
  unfold CopiedStops.fromFrame
  rw [hall, hmap, hsort, hbase, hpause]
  rfl

end SessionClock

/-- Past its base, a list of stops read off a frame counts as one of the clock's own does. -/
theorem CopiedStops.pauseBefore_eq (h : stopJumps.Ascending t.stops) (s : Nat) :
    t.pauseBefore s = if s < t.baseStep then 0 else t.basePause + stopJumps.before t.stops s := by
  unfold CopiedStops.pauseBefore
  have htake := h.takeWhile_eq_filter s
  split
  · rfl
  · exact congrArg (fun l => t.basePause + (l.map Stop.pause).sum) htake

theorem CopiedStops.pauseBefore_mono (h : stopJumps.Ascending t.stops) (hle : s ≤ u) :
    t.pauseBefore s ≤ t.pauseBefore u := by
  have hmono := stopJumps.before_mono t.stops hle
  rw [t.pauseBefore_eq h, t.pauseBefore_eq h]
  split
  · exact Nat.zero_le _
  · rw [if_neg (by omega)]
    omega

/-- It grows after its stops, and where its base begins. -/
theorem CopiedStops.grows_at (h : stopJumps.Ascending t.stops)
    (hne : t.pauseBefore (s + 1) ≠ t.pauseBefore s) : s + 1 = t.baseStep ∨ ∃ stop ∈ t.stops, stop.step = s := by
  rw [t.pauseBefore_eq h, t.pauseBefore_eq h] at hne
  by_cases hbase : s + 1 = t.baseStep
  · exact .inl hbase
  · right
    by_cases hlt : s < t.baseStep
    · rw [if_pos (by omega), if_pos hlt] at hne
      exact absurd rfl hne
    · rw [if_neg (by omega), if_neg hlt] at hne
      refine stopJumps.exists_of_before_ne fun heq => ?_
      rw [heq] at hne
      exact hne rfl

namespace SessionClock

theorem pauseBefore_mono (c : SessionClock) (hle : s ≤ u) : c.pauseBefore s ≤ c.pauseBefore u :=
  Nat.add_le_add_left (stopJumps.before_mono c.stops hle) _

/-! ## Merging -/

section Merge

theorem mem_mergeSteps :
    s ∈ c.mergeSteps t ↔ c.finalThrough ≤ s ∧
      ((∃ stop ∈ c.stops, stop.step = s) ∨ (∃ stop ∈ t.stops, stop.step = s) ∨ s + 1 = t.baseStep ∨ s = c.finalThrough) := by
  have hbase : s ∈ (checkedSub t.baseStep 1).toList ↔ s + 1 = t.baseStep := by
    unfold checkedSub
    split <;> simp <;> omega
  unfold mergeSteps
  rw [mem_sortDedup, mem_filter]
  simp only [mem_append, mem_map, hbase, mem_singleton, decide_eq_true_eq]
  rw [and_comm, or_assoc, or_assoc]

/-- The stopped time after a merge: this copy's up to its limit, the further of the two past it. -/
def mergedPause (c : SessionClock) (t : CopiedStops) (s : Nat) : Nat :=
  if s ≤ c.finalThrough then c.pauseBefore s else max (c.pauseBefore s) (t.pauseBefore s)

theorem mergedPause_grows_at (ht : stopJumps.Ascending t.stops) (hs : c.finalThrough ≤ s)
    (hne : mergedPause c t (s + 1) ≠ mergedPause c t s) : s ∈ c.mergeSteps t := by
  refine mem_mergeSteps.mpr ⟨hs, ?_⟩
  by_cases hlimit : s = c.finalThrough
  · exact .inr (.inr (.inr hlimit))
  · unfold mergedPause at hne
    rw [if_neg (by omega), if_neg (by omega)] at hne
    by_cases hown : c.pauseBefore (s + 1) = c.pauseBefore s
    · have htheirs : t.pauseBefore (s + 1) ≠ t.pauseBefore s := by
        intro heq
        rw [hown, heq] at hne
        exact hne rfl
      obtain hbase | hstop := CopiedStops.grows_at ht htheirs
      · exact .inr (.inr (.inl hbase))
      · exact .inr (.inl hstop)
    · refine .inl (stopJumps.exists_of_before_ne fun heq => hown ?_)
      exact congrArg (c.basePause + ·) heq

theorem mergedPause_mono (ht : stopJumps.Ascending t.stops) (s : Nat) : mergedPause c t s ≤ mergedPause c t (s + 1) := by
  have hown := c.pauseBefore_mono (Nat.le_succ s)
  have htheirs := CopiedStops.pauseBefore_mono ht (Nat.le_succ s)
  unfold mergedPause
  split
  · split
    · exact hown
    · exact hown.trans (le_max_left _ _)
  · rw [if_neg (by omega)]
    exact max_le_max hown htheirs

/-- **The stops of a merge tell the merged stopped time.** -/
theorem mergeStops_before (ht : stopJumps.Ascending t.stops) (s : Nat) :
    c.basePause + stopJumps.before (c.mergeStops t) s = mergedPause c t s := by
  have hsteps : ∀ x ∈ c.mergeSteps t, c.finalThrough ≤ x := fun x hx => (mem_mergeSteps.mp hx).1
  have hstart : mergedPause c t c.finalThrough = c.pauseBefore c.finalThrough := if_pos le_rfl
  have hgrowth : stopJumps.growth (fun step => max (c.pauseBefore step) (t.pauseBefore step)) (c.pauseBefore c.finalThrough)
      (c.mergeSteps t) = stopJumps.growth (mergedPause c t) (mergedPause c t c.finalThrough) (c.mergeSteps t) := by
    rw [hstart]
    refine stopJumps.growth_congr fun x hx => (if_neg ?_).symm
    have := hsteps x hx
    omega
  unfold mergeStops
  rw [Jumps.before_append, hgrowth]
  by_cases hs : s ≤ c.finalThrough
  · have hnone : stopJumps.before (stopJumps.growth (mergedPause c t) (mergedPause c t c.finalThrough)
      (c.mergeSteps t)) s = 0 :=
      stopJumps.before_eq_zero fun x hx => hs.trans (hsteps _ (stopJumps.of_mem_growth hx).1)
    have hkept : stopJumps.before (c.stops.filter fun stop => stop.step < c.finalThrough) s = stopJumps.before c.stops s :=
      stopJumps.before_filter hs
    rw [hnone, Nat.add_zero, hkept, mergedPause, if_pos hs]
    rfl
  · have hkept : stopJumps.before (c.stops.filter fun stop => stop.step < c.finalThrough) s =
      stopJumps.before c.stops c.finalThrough := by
      rw [← stopJumps.before_filter (le_refl c.finalThrough)]
      refine stopJumps.before_congr fun x hx => ?_
      have hlt : x.step < c.finalThrough := by simpa using (mem_filter.mp hx).2
      exact ⟨fun _ => hlt, fun _ => hlt.trans (not_le.mp hs)⟩
    have hsum := stopJumps.growth_before (sortDedup_sorted _) hsteps (fun u _ => mergedPause_mono ht u)
      (fun u hu hne => mergedPause_grows_at ht hu hne) (not_le.mp hs).le
    rw [hkept, ← Nat.add_assoc, ← hsum, hstart]
    rfl

/-- The stops of a merge are in order, up to the larger limit. -/
theorem mergeStops_sound (h : StopsSound c.baseStep c.finalThrough c.stops)
    (ht : StopsSound t.baseStep final t.stops) : StopsSound c.baseStep (max c.finalThrough final) (c.mergeStops t) where
  base := h.base.trans (Nat.sub_le_sub_right (le_max_left _ _) _)
  sorted := by
    refine pairwise_append.mpr ⟨h.sorted.sublist filter_sublist, stopJumps.growth_ascending (sortDedup_sorted _), ?_⟩
    intro x hx y hy
    have hx : x.step < c.finalThrough := by simpa using (mem_filter.mp hx).2
    exact hx.trans_le (mem_mergeSteps.mp (stopJumps.of_mem_growth hy).1).1
  within := by
    intro x hx
    obtain hx | hx := mem_append.mp hx
    · obtain ⟨hlo, hhi⟩ := h.within x (mem_of_mem_filter hx)
      exact ⟨hlo, hhi.trans (le_max_left _ _)⟩
    · obtain ⟨hge, hwhere⟩ := mem_mergeSteps.mp (stopJumps.of_mem_growth hx).1
      have hge : c.finalThrough ≤ x.step := hge
      have hbase' := h.base
      have htbase := ht.base
      refine ⟨by omega, ?_⟩
      obtain ⟨stop, hmem, heq⟩ | ⟨stop, hmem, heq⟩ | heq | heq := hwhere
      · exact heq.ge.trans ((h.within stop hmem).2.trans (le_max_left _ _))
      · exact heq.ge.trans ((ht.within stop hmem).2.trans (le_max_right _ _))
      · have heq : x.step + 1 = t.baseStep := heq
        exact le_max_of_le_right (by omega)
      · have heq : x.step = c.finalThrough := heq
        exact heq.le.trans (le_max_left _ _)

theorem merge_sound (h : c.Sound) (h' : c'.Sound)
    (hframe : c'.toFrame now = some frame) (receivedAt : Int) (meshRttFloorUs : Nat) :
    (c.merge frame receivedAt meshRttFloorUs).1.Sound ∧ c.Later (c.merge frame receivedAt meshRttFloorUs).1 := by
  obtain ⟨a, ha, hstep, hfinal, -⟩ := toFrame_eq hframe
  unfold merge
  rw [fromFrame_toFrame h' hframe, hfinal]
  cases hanchor : c.anchor with
  | none =>
    have hzero := h.fresh hanchor
    have hbase := h.base_le
    constructor
    · refine ⟨copied_stops h', ?_, ?_⟩
      · rintro b ⟨⟩
        exact hstep.trans (h'.anchored a ha)
      · rintro ⟨⟩
    · refine ⟨?_, ?_, ?_, ?_⟩
      · rintro b hb
        rw [hanchor] at hb
        cases hb
      · exact hzero.le.trans (Nat.zero_le _)
      · exact (hbase.trans hzero.le).trans (Nat.zero_le _)
      · intro hsome
        rw [hanchor] at hsome
        cases hsome
  | some b =>
    dsimp only
    split
    · exact ⟨h, .refl c⟩
    · have hsome : c.anchor.isSome := by rw [hanchor]; rfl
      have hstops := mergeStops_sound (t := c'.copied) h.stops (copied_stops h')
      rw [← hanchor]
      refine ⟨fold_sound h hsome hstops, later_fold (le_max_left _ _) fun s hs => ?_⟩
      have hmerged := mergeStops_before (c := c) (copied_stops h').sorted s
      rw [mergedPause, if_pos hs] at hmerged
      exact Nat.add_left_cancel hmerged

end Merge

/-! ## Runs -/

/-- The copies a relay can hold: any calls, and merges of frames of such copies. -/
inductive Reachable : SessionClock → Prop
  | empty : Reachable empty
  | anchorAt {c : SessionClock} (h : Reachable c) (newest : Nat) (due : Int) : Reachable (c.anchorAt newest due).1
  | noteConfirmable {c : SessionClock} (h : Reachable c) (newestBefore : Option Nat) (newest : Nat) (now : Int) :
      Reachable (c.noteConfirmable newestBefore newest now).1
  | merge {c c' : SessionClock} {now : Int} {frame : SessionClockFrame} (h : Reachable c) (h' : Reachable c')
      (hframe : c'.toFrame now = some frame) (receivedAt : Int) (meshRttFloorUs : Nat) :
      Reachable (c.merge frame receivedAt meshRttFloorUs).1

/-- One call on a relay's copy. -/
inductive ClockStep (c : SessionClock) : SessionClock → Prop
  | anchorAt (newest : Nat) (due : Int) : ClockStep c (c.anchorAt newest due).1
  | noteConfirmable (newestBefore : Option Nat) (newest : Nat) (now : Int) :
      ClockStep c (c.noteConfirmable newestBefore newest now).1
  | merge {c' : SessionClock} {now : Int} {frame : SessionClockFrame} (h' : Reachable c')
      (hframe : c'.toFrame now = some frame) (receivedAt : Int) (meshRttFloorUs : Nat) :
      ClockStep c (c.merge frame receivedAt meshRttFloorUs).1

theorem empty_sound : empty.Sound where
  stops := ⟨Nat.zero_le _, .nil, fun _ hx => nomatch hx⟩
  anchored := fun _ ha => nomatch ha
  fresh := fun _ => rfl

theorem Reachable.sound (h : Reachable c) : c.Sound := by
  induction h with
  | empty => exact empty_sound
  | anchorAt _ newest due ih => exact (anchorAt_sound ih newest due).1
  | noteConfirmable _ newestBefore newest now ih => exact (noteConfirmable_sound ih newestBefore newest now).1
  | merge _ _ hframe receivedAt meshRttFloorUs ih ih' => exact (merge_sound ih ih' hframe receivedAt meshRttFloorUs).1

theorem ClockStep.sound (hstep : ClockStep c c') (h : c.Sound) : c'.Sound ∧ c.Later c' := by
  cases hstep with
  | anchorAt newest due => exact anchorAt_sound h newest due
  | noteConfirmable newestBefore newest now => exact noteConfirmable_sound h newestBefore newest now
  | merge h' hframe receivedAt meshRttFloorUs => exact merge_sound h h'.sound hframe receivedAt meshRttFloorUs

theorem run_sound (h : c.Sound) (hrun : Relation.ReflTransGen ClockStep c c') : c'.Sound ∧ c.Later c' := by
  induction hrun with
  | refl => exact ⟨h, .refl c⟩
  | tail _ hstep ih =>
    have hnext := hstep.sound ih.1
    exact ⟨hnext.1, ih.2.trans hnext.2⟩

/-- **A final deadline never moves.** Along any run of calls, a deadline once told is told again, or is
    too old to be told; the limit and the base only grow; and the stops ascend strictly, none past the
    limit. -/
theorem final_deadline_never_moves {c c' : SessionClock} (hc : Reachable c) (hrun : Relation.ReflTransGen ClockStep c c') :
    (∀ seq t, c.dueAt seq = some t → c'.dueAt seq = some t ∨ c'.dueAt seq = none ∧ seq < c'.baseStep) ∧
      c.finalThrough ≤ c'.finalThrough ∧ c.baseStep ≤ c'.baseStep ∧ c'.baseStep ≤ c'.finalThrough ∧
      (c'.stops.Pairwise fun a b => a.step < b.step) ∧ ∀ stop ∈ c'.stops, stop.step ≤ c'.finalThrough := by
  obtain ⟨hsound, hlater⟩ := run_sound hc.sound hrun
  exact ⟨fun _ _ => hlater.dueAt, hlater.final, hlater.base, hsound.base_le, hsound.stops.sorted,
    fun stop hstop => (hsound.stops.within stop hstop).2⟩

/-- A copy whose clock stood still for a second at its limit. -/
theorem final_deadline_never_moves_example :
    let c := (empty.anchorAt 23 0).1
    let c' := (c.noteConfirmable none 24 1252000000).1
    c.dueAt 29 = some 252000000 ∧ c'.stops = [⟨29, 1000000000⟩] ∧ c'.dueAt 30 = some 1294000000 ∧
      (c'.dueAt 29 = some 252000000 ∨ c'.dueAt 29 = none ∧ 29 < c'.baseStep) :=
  ⟨by decide, by decide, by decide,
    (final_deadline_never_moves (Reachable.empty.anchorAt 23 0)
      (.single (.noteConfirmable none 24 1252000000))).1 29 _ (by decide)⟩

/-! ## Waiting for the slowest -/

theorem Reachable.anchorStep_le (h : Reachable c) : c.anchor.isSome → anchorStep ≤ c.finalThrough := by
  induction h with
  | empty => intro hsome; cases hsome
  | @anchorAt c _ newest due ih =>
    unfold SessionClock.anchorAt
    cases hanchor : c.anchor with
    | some a => exact fun _ => ih (by rw [hanchor]; rfl)
    | none => exact fun _ => (le_max_right newest anchorStep).trans (Nat.le_add_right _ _)
  | @noteConfirmable c h newestBefore newest now ih =>
    intro hsome
    by_cases hanchor : c.anchor = none
    · simp [SessionClock.noteConfirmable, hanchor] at hsome
    · exact (ih (Option.isSome_iff_ne_none.mpr hanchor)).trans
        (noteConfirmable_sound h.sound newestBefore newest now).2.final
  | @merge c c' now frame h h' hframe receivedAt meshRttFloorUs ih ih' =>
    intro _
    by_cases hanchor : c.anchor = none
    · obtain ⟨a, ha, -, hfinal, -⟩ := toFrame_eq hframe
      simp only [SessionClock.merge, hanchor, hfinal]
      exact ih' (by rw [ha]; rfl)
    · exact (ih (Option.isSome_iff_ne_none.mpr hanchor)).trans
        (merge_sound h.sound h'.sound hframe receivedAt meshRttFloorUs).2.final

theorem goOnTo_finalThrough (c : SessionClock) (limit : Nat) (now : Int) :
    (c.goOnTo limit now).1.finalThrough = max c.finalThrough limit := by
  unfold goOnTo
  split
  · next hle => exact (max_eq_left hle).symm
  · next hlt => exact (max_eq_right (not_le.mp hlt).le).symm

/-- Past the limit, the clock has stood for at least `stood` more. -/
theorem le_standAtLimit_past (c : SessionClock) (stood : Nat) :
    c.pauseBefore c.finalThrough + stood ≤ (c.standAtLimit stood).1.pauseBefore (c.finalThrough + 1) := by
  have hlast (init : List Stop) (pause : Nat) : stopJumps.before (init ++ [⟨c.finalThrough, pause⟩]) (c.finalThrough + 1) =
      stopJumps.before init (c.finalThrough + 1) + pause := by
    have hplace : stopJumps.place ⟨c.finalThrough, pause⟩ < c.finalThrough + 1 := Nat.lt_succ_self _
    rw [Jumps.before_append, Jumps.before_cons, if_pos hplace]
    rfl
  unfold standAtLimit
  dsimp only
  split
  · assumption
  · cases hstop : c.stops.getLast? with
    | none =>
      have hnew := hlast c.stops
      simp only [pauseBefore] at *
      rw [hnew]
      omega
    | some stop =>
      by_cases hat : stop.step = c.finalThrough
      · have hsplit := hlast c.stops.dropLast stop.pause
        rw [← hat, dropLast_append_getLast? stop hstop, hat] at hsplit
        have hnew := hlast c.stops.dropLast
        simp only [pauseBefore, hat, if_true] at *
        rw [hnew]
        omega
      · have hnew := hlast c.stops
        simp only [pauseBefore, hat, if_false] at *
        rw [hnew]
        omega

/-- Deadlines ascend. -/
theorem dueAt_lt {t t' : Int} (hs : c.dueAt s = some t) (hu : c.dueAt u = some t') (hlt : s < u) : t < t' := by
  obtain ⟨a, ha, hle, -, -, rfl⟩ := dueAt_eq_some_iff.mp hs
  obtain ⟨b, hb, -, -, -, rfl⟩ := dueAt_eq_some_iff.mp hu
  obtain rfl : a = b := by
    rw [ha] at hb
    exact Option.some.inj hb
  have hpause := c.pauseBefore_mono hlt.le
  simp only [stepsDuration, stepDurationUs, fromMicros]
  omega

/-- Going on to the next limit, from the old one. -/
theorem goOnTo_dueAt (h : c.Sound) {limit : Nat} {now due : Int} (hdue : c.dueAt c.finalThrough = some due)
    (hlt : c.finalThrough < s) (hle : s ≤ limit) (hkept : limit - keptStopSteps ≤ s) :
    ∃ t, (c.goOnTo limit now).1.dueAt s = some t ∧ max now due + stepsDuration (s - c.finalThrough) ≤ t := by
  obtain ⟨a, ha, hafter, -, hbase, hdue'⟩ := dueAt_eq_some_iff.mp hdue
  have hpast := c.le_standAtLimit_past (durationSince now due)
  obtain ⟨stops, heq, -, -⟩ := standAtLimit_stops h.stops (durationSince now due)
  rw [heq] at hpast
  have hgo : (c.goOnTo limit now).1 = { c with stops, finalThrough := limit }.fold := by
    simp only [goOnTo, if_neg (not_le.mpr (hlt.trans_le hle)), hdue, heq]
  rw [hgo]
  have hpause : c.pauseBefore c.finalThrough + durationSince now due ≤
    { c with stops, finalThrough := limit }.fold.pauseBefore s := by
    rw [fold_pauseBefore (c := { c with stops, finalThrough := limit }) hkept]
    exact hpast.trans (pauseBefore_mono { c with stops } hlt)
  have hbase' : { c with stops, finalThrough := limit }.fold.baseStep ≤ s := max_le (hbase.trans hlt.le) hkept
  refine ⟨_, dueAt_eq_some_iff.mpr ⟨a, ha, hafter.trans hlt.le, hle, hbase', rfl⟩, ?_⟩
  have hsteps : stepsDuration (s - a.1) = stepsDuration (c.finalThrough - a.1) + stepsDuration (s - c.finalThrough) := by
    simp only [stepsDuration, stepDurationUs, fromMicros]
    omega
  unfold durationSince at hpause
  omega

/-- **The clock waits for the slowest.** In every copy deadlines ascend, and a step that becomes final is
    due, while its stops are kept by step, no earlier than its distance from the old limit after both now
    and the old limit's deadline. -/
theorem clock_waits_for_slowest (hc : Reachable c) (newestBefore : Option Nat) (newest : Nat) (now : Int) :
    let old := c.broughtUp newestBefore
    let c' := (c.noteConfirmable newestBefore newest now).1
    (∀ s u t t', c'.dueAt s = some t → c'.dueAt u = some t' → s < u → t < t') ∧
    (old.finalThrough < c'.finalThrough → ∃ due, old.dueAt old.finalThrough = some due ∧
      ∀ s, old.finalThrough < s → s ≤ c'.finalThrough → c'.finalThrough - keptStopSteps ≤ s →
        ∃ t, c'.dueAt s = some t ∧ max now due + stepsDuration (s - old.finalThrough) ≤ t) := by
  intro old c'
  refine ⟨fun _ _ _ _ => dueAt_lt, fun hraised => ?_⟩
  have hanchor : c.anchor ≠ none := by
    intro hnone
    have hsame : c' = c := by simp only [c', noteConfirmable, hnone, if_true]
    cases newestBefore <;> simp [old, broughtUp, hsame] at hraised
  have hsome : c.anchor.isSome := Option.isSome_iff_ne_none.mpr hanchor
  obtain ⟨hsound, hlater⟩ := broughtUp_sound hc.sound hsome newestBefore
  obtain ⟨a, ha⟩ := Option.isSome_iff_exists.mp hsome
  have hc' : c' = (old.goOnTo (newest + stallSlackSteps) now).1 :=
    congrArg Prod.fst (noteConfirmable_eq hanchor newestBefore newest now)
  have hlimit : c'.finalThrough = newest + stallSlackSteps := by
    have := old.goOnTo_finalThrough (newest + stallSlackSteps) now
    rw [← hc'] at this
    omega
  have hafter : a.1 ≤ old.finalThrough := by
    rw [hc.sound.anchored a ha]
    exact (hc.anchorStep_le hsome).trans hlater.final
  have hdue := dueAt_eq_some_iff.mpr ⟨a, hlater.anchor a ha, hafter, le_rfl, hsound.base_le, rfl⟩
  refine ⟨_, hdue, fun s hlt hle hkept => ?_⟩
  rw [hlimit] at hle hkept
  rw [hc']
  exact goOnTo_dueAt hsound hdue hlt hle hkept

/-- The clock stood a second at step 29: step 30 is due a step after now, not after step 29's deadline. -/
theorem clock_waits_for_slowest_second :
    let c := (empty.anchorAt 23 0).1
    Reachable c ∧ c.dueAt 29 = some 252000000 ∧
      ∃ t, (c.noteConfirmable none 24 1252000000).1.dueAt 30 = some t ∧ 1252000000 + stepsDuration 1 ≤ t := by
  refine ⟨Reachable.empty.anchorAt 23 0, by decide, ?_⟩
  obtain ⟨due, hdue, hwaits⟩ := (clock_waits_for_slowest (Reachable.empty.anchorAt 23 0) none 24 1252000000).2 (by decide)
  obtain ⟨t, ht, hle⟩ := hwaits 30 (by decide) (by decide) (by decide)
  exact ⟨t, ht, (Int.add_le_add_right (le_max_left _ due) _).trans hle⟩

/-- Past more steps than stops are kept for, a step becomes final with no deadline. -/
theorem long_step_gets_no_deadline :
    let c := (empty.anchorAt 23 0).1
    let c' := (c.noteConfirmable (some 23) 200 0).1
    Reachable c ∧ c.finalThrough = 29 ∧ c'.finalThrough = 206 ∧ c'.dueAt 30 = none :=
  ⟨Reachable.empty.anchorAt 23 0, by decide, by decide, by decide⟩

/-! ## Merging is a join -/

/-- The pauses of a copy are whole microseconds. -/
structure WholeMicros (c : SessionClock) : Prop where
  base : 1000 ∣ c.basePause
  stops : ∀ stop ∈ c.stops, 1000 ∣ stop.pause

theorem truncated_eq {duration : Nat} (h : 1000 ∣ duration) : truncated duration = duration := Nat.div_mul_cancel h

/-- A frame loses nothing of whole microseconds. -/
theorem copied_pauseBefore (h : c.Sound) (hwhole : c.WholeMicros) (hs : c.baseStep ≤ s) :
    c.copied.pauseBefore s = c.pauseBefore s := by
  have hstops : c.copied.stops = c.stops := by
    have hid : ∀ stop ∈ c.stops, (⟨stop.step, truncated stop.pause⟩ : Stop) = stop := by
      intro stop hstop
      rw [truncated_eq (hwhole.stops stop hstop)]
    exact (map_congr_left hid).trans (map_id _)
  have hbase : c.copied.basePause = c.basePause := truncated_eq hwhole.base
  rw [CopiedStops.pauseBefore_eq (copied_stops h).sorted, if_neg (not_lt.mpr (by exact hs)), hstops, hbase]
  rfl

/-- Merging stops that tell nothing new changes none. -/
theorem mergeStops_self (h : stopJumps.Ascending c.stops)
    (hpos : ∀ stop ∈ c.stops, c.finalThrough ≤ stop.step → 0 < stop.pause)
    (hle : ∀ s, c.finalThrough < s → t.pauseBefore s ≤ c.pauseBefore s) : c.mergeStops t = c.stops := by
  have hearly : (c.stops.takeWhile fun stop => stop.step < c.finalThrough) =
      c.stops.filter fun stop => stop.step < c.finalThrough := h.takeWhile_eq_filter c.finalThrough
  have hlate : ∀ stop ∈ c.stops.dropWhile (fun stop => stop.step < c.finalThrough), c.finalThrough ≤ stop.step :=
    fun stop hstop => h.le_of_mem_dropWhile hstop
  have hmem : ∀ stop ∈ c.stops.dropWhile (fun stop => stop.step < c.finalThrough), stop ∈ c.stops :=
    fun stop hstop => (dropWhile_sublist _).subset hstop
  have hgrowth : stopJumps.growth (fun step => max (c.pauseBefore step) (t.pauseBefore step)) (c.pauseBefore c.finalThrough)
      (c.mergeSteps t) = c.stops.dropWhile fun stop => stop.step < c.finalThrough := by
    refine stopJumps.growth_self (h.sublist (dropWhile_sublist _)) (fun x hx => hpos x (hmem x hx) (hlate x hx))
      (sortDedup_sorted _) (fun x hx => mem_mergeSteps.mpr ⟨hlate x hx, .inl ⟨x, hmem x hx, rfl⟩⟩) ?_
    intro s hs
    have hs := (mem_mergeSteps.mp hs).1
    rw [max_eq_left (hle (s + 1) (by omega))]
    -- the stops before the limit count in full on both sides
    have hsplit := stopJumps.before_takeWhile_add_dropWhile (l := c.stops) (fun stop => stop.step < c.finalThrough)
    have hsame : stopJumps.before (c.stops.takeWhile fun stop => stop.step < c.finalThrough) (s + 1) =
        stopJumps.before (c.stops.takeWhile fun stop => stop.step < c.finalThrough) c.finalThrough := by
      refine stopJumps.before_congr fun x hx => ?_
      have hlt : x.step < c.finalThrough := by simpa using mem_takeWhile_imp hx
      exact ⟨fun _ => hlt, fun _ => hlt.trans (by omega)⟩
    have hzero := stopJumps.before_eq_zero hlate
    have hat := hsplit c.finalThrough
    have hpast := hsplit (s + 1)
    unfold pauseBefore
    omega
  unfold mergeStops
  rw [hgrowth, ← hearly, takeWhile_append_dropWhile]

/-- A folded copy stays as it is. -/
theorem fold_self (h : StopsSound c.baseStep c.finalThrough c.stops)
    (hbase : c.finalThrough - keptStopSteps ≤ c.baseStep) : c.fold = c := by
  have hnone : ∀ stop ∈ c.stops, ¬ stop.step < c.finalThrough - keptStopSteps :=
    fun stop hstop => not_lt.mpr (hbase.trans (h.within stop hstop).1)
  have htake : (c.stops.takeWhile fun stop => stop.step < c.finalThrough - keptStopSteps) = [] :=
    takeWhile_eq_nil_iff.mpr fun hlen => by simpa using hnone _ (getElem_mem hlen)
  have hdrop : (c.stops.dropWhile fun stop => stop.step < c.finalThrough - keptStopSteps) = c.stops :=
    dropWhile_eq_self_iff.mpr fun hlen => by simpa using hnone _ (getElem_mem hlen)
  unfold fold
  simp only [htake, hdrop, map_nil, sum_nil, Nat.add_zero, max_eq_left hbase]

section Join

variable {A : SessionClock}

/-- What an anchored copy becomes by a merge of another's frame. -/
def joined (c A : SessionClock) : SessionClock :=
  { c with stops := c.mergeStops A.copied, finalThrough := max c.finalThrough A.finalThrough }.fold

theorem joined_baseStep (h : c.Sound) (hA : A.Sound) :
    (c.joined A).baseStep = max c.finalThrough A.finalThrough - keptStopSteps :=
  max_eq_right (mergeStops_sound (t := A.copied) h.stops (copied_stops hA)).base

/-- **The merged stopped time**: this copy's up to its limit, and past it the larger of the two. -/
theorem joined_pauseBefore (hA : A.Sound) (hwhole : A.WholeMicros)
    (hs : max c.finalThrough A.finalThrough - keptStopSteps ≤ s) :
    (c.joined A).pauseBefore s = if s ≤ c.finalThrough then c.pauseBefore s
      else max (c.pauseBefore s) (A.pauseBefore s) := by
  have hbase : A.baseStep ≤ s := hA.stops.base.trans ((Nat.sub_le_sub_right (le_max_right _ _) _).trans hs)
  have hmerged := mergeStops_before (c := c) (copied_stops hA).sorted s
  rw [mergedPause, copied_pauseBefore hA hwhole hbase] at hmerged
  rw [← hmerged]
  exact fold_pauseBefore
    (c := { c with stops := c.mergeStops A.copied, finalThrough := max c.finalThrough A.finalThrough }) hs

/-- The stops a merge leaves at or past the limit are real ones. -/
theorem joined_stops_pos (hstop : stop ∈ (c.joined A).stops) (hlimit : (c.joined A).finalThrough ≤ stop.step) :
    0 < stop.pause := by
  have hmem : stop ∈ c.mergeStops A.copied := (dropWhile_sublist _).subset hstop
  obtain hkept | hnew := mem_append.mp hmem
  · have hlt : stop.step < c.finalThrough := by simpa using (mem_filter.mp hkept).2
    have hle : c.finalThrough ≤ stop.step := (le_max_left _ _).trans hlimit
    omega
  · exact (stopJumps.of_mem_growth hnew).2

theorem merge_eq (h : c.Sound) (hanchor : c.anchor.isSome) (hA : A.Sound) (hframe : A.toFrame now = some frame)
    (receivedAt : Int) (meshRttFloorUs : Nat) :
    c.merge frame receivedAt meshRttFloorUs =
      (c.joined A, decide (c.mergeStops A.copied ≠ c.stops ∨ c.finalThrough < A.finalThrough)) := by
  obtain ⟨a, ha, hstep, hfinal, -⟩ := toFrame_eq hframe
  obtain ⟨b, hb⟩ := Option.isSome_iff_exists.mp hanchor
  have hsame : frame.anchorStep = b.1 := by rw [hstep, hA.anchored a ha, h.anchored b hb]
  unfold merge joined
  rw [fromFrame_toFrame hA hframe, hfinal]
  simp only [hb, hsame, ne_eq, not_true_eq_false, if_false]

/-- **Merging a frame again changes nothing.** -/
theorem merge_again (h : c.Sound) (hanchor : c.anchor.isSome) (hA : A.Sound) (hwhole : A.WholeMicros)
    (hframe : A.toFrame now = some frame) (receivedAt : Int) (meshRttFloorUs : Nat) :
    (c.joined A).merge frame receivedAt meshRttFloorUs = (c.joined A, false) := by
  have hstops := mergeStops_sound (t := A.copied) h.stops (copied_stops hA)
  have hsound : (c.joined A).Sound := fold_sound h hanchor hstops
  have hbase : (c.joined A).finalThrough - keptStopSteps ≤ (c.joined A).baseStep := (joined_baseStep h hA).ge
  have hself : (c.joined A).mergeStops A.copied = (c.joined A).stops := by
    refine mergeStops_self hsound.stops.sorted (fun _ => joined_stops_pos) fun s hs => ?_
    have hs : max c.finalThrough A.finalThrough < s := hs
    obtain ⟨hown, htheirs⟩ := max_lt_iff.mp hs
    rw [joined_pauseBefore hA hwhole (by omega), if_neg (by omega),
      copied_pauseBefore hA hwhole (by have := hA.base_le; omega)]
    exact le_max_right _ _
  have hfinal : max (c.joined A).finalThrough A.finalThrough = (c.joined A).finalThrough := max_eq_left (le_max_right _ _)
  have hfold : (c.joined A).joined A = c.joined A := by
    rw [joined, hself, hfinal]
    exact fold_self hsound.stops hbase
  rw [merge_eq hsound hanchor hA hframe, hfold, hself]
  have hlimit : ¬ (c.joined A).finalThrough < A.finalThrough := not_lt.mpr (le_max_right _ _)
  simp [hlimit]

end Join

/-! ## Any number of frames -/

/-- A frame on its way: the copy it is of, and when it is received. -/
structure SentFrame where
  source : SessionClock
  reachable : Reachable source
  sentAt : Int
  frame : SessionClockFrame
  sent : source.toFrame sentAt = some frame
  receivedAt : Int
  meshRttFloorUs : Nat

/-- Merging one frame after the other. -/
def mergeAll (c : SessionClock) (frames : List SentFrame) : SessionClock :=
  frames.foldl (fun c sent => (c.merge sent.frame sent.receivedAt sent.meshRttFloorUs).1) c

/-- A relay's copy and the copies it has received frames of. -/
def sources (c : SessionClock) (frames : List SentFrame) : Finset SessionClock :=
  insert c (frames.map SentFrame.source).toFinset

/-- A step's deadline as the copy stands, final or not. -/
def expectedAt (c : SessionClock) (step : Nat) : Option Int :=
  c.anchor.map fun a => a.2 + c.pauseBefore step + stepsDuration (step - a.1)

theorem merge_reachable (h : Reachable c) (sent : SentFrame) :
    Reachable (c.merge sent.frame sent.receivedAt sent.meshRttFloorUs).1 :=
  h.merge sent.reachable sent.sent _ _

/-- **Past all the limits, the stopped time after any merges is the largest of all the copies'.** -/
theorem mergeAll_pauseBefore (hc : Reachable c) (hanchor : c.anchor.isSome) {frames : List SentFrame}
    (hwhole : ∀ sent ∈ frames, sent.source.WholeMicros) (hown : c.finalThrough < s)
    (htheirs : ∀ sent ∈ frames, sent.source.finalThrough < s) :
    (c.mergeAll frames).pauseBefore s = (c.sources frames).sup fun A => A.pauseBefore s := by
  induction frames generalizing c with
  | nil => simp [mergeAll, sources]
  | cons sent frames ih =>
    have hA := sent.reachable.sound
    have hlimit := htheirs sent mem_cons_self
    have hmerge := merge_eq hc.sound hanchor hA sent.sent sent.receivedAt sent.meshRttFloorUs
    have hnext := merge_reachable hc sent
    rw [hmerge] at hnext
    have hpause : (c.joined sent.source).pauseBefore s = max (c.pauseBefore s) (sent.source.pauseBefore s) := by
      rw [joined_pauseBefore hA (hwhole sent mem_cons_self) (by omega), if_neg (by omega)]
    have hrest := ih hnext hanchor (fun x hx => hwhole x (mem_cons_of_mem _ hx)) (max_lt hown hlimit)
      (fun x hx => htheirs x (mem_cons_of_mem _ hx))
    unfold mergeAll at hrest ⊢
    rw [foldl_cons, hmerge, hrest]
    unfold sources
    rw [map_cons, toFinset_cons, Finset.sup_insert, Finset.sup_insert, Finset.sup_insert, hpause, ← sup_assoc]

theorem mergeAll_anchor (hc : Reachable c) {a : Nat × Int} (ha : c.anchor = some a) (frames : List SentFrame) :
    (c.mergeAll frames).anchor = some a := by
  induction frames generalizing c with
  | nil => exact ha
  | cons sent frames ih =>
    have hlater := (merge_sound hc.sound sent.reachable.sound sent.sent sent.receivedAt sent.meshRttFloorUs).2
    exact ih (merge_reachable hc sent) (hlater.anchor a ha)

/-- **Merging is a join of the stopped times.** For an anchored copy and a frame of another one, whose
    pauses are whole microseconds: past this copy's limit the stopped time becomes the larger of the two,
    from the new base on; between the base and the limit it stays; the limit becomes the larger one; and
    the same frame again does nothing. Past all the limits, any frames in any order leave the largest
    stopped time of all the copies, so that two relays that know of the same copies expect each step at
    the same time after their own anchors. -/
theorem merge_is_join (hc : Reachable c) (hanchor : c.anchor.isSome) :
    (∀ sent : SentFrame, sent.source.WholeMicros →
      let c' := (c.merge sent.frame sent.receivedAt sent.meshRttFloorUs).1
      (∀ s, c.finalThrough < s → c'.baseStep ≤ s → c'.pauseBefore s = max (c.pauseBefore s) (sent.source.pauseBefore s)) ∧
        (∀ s, c'.baseStep ≤ s → s ≤ c.finalThrough → c'.pauseBefore s = c.pauseBefore s) ∧
        c'.finalThrough = max c.finalThrough sent.source.finalThrough ∧
        ∀ receivedAt meshRttFloorUs, c'.merge sent.frame receivedAt meshRttFloorUs = (c', false)) ∧
    (∀ frames : List SentFrame, (∀ sent ∈ frames, sent.source.WholeMicros) → ∀ s,
      (∀ A ∈ c.sources frames, A.finalThrough < s) →
      (c.mergeAll frames).pauseBefore s = (c.sources frames).sup (fun A => A.pauseBefore s) ∧
        ∀ d frames', Reachable d → d.anchor.isSome → (∀ sent ∈ frames', sent.source.WholeMicros) →
          d.sources frames' = c.sources frames →
            ∃ at₁ at₂ after, c.anchor = some (anchorStep, at₁) ∧ d.anchor = some (anchorStep, at₂) ∧
              (c.mergeAll frames).expectedAt s = some (at₁ + after) ∧
              (d.mergeAll frames').expectedAt s = some (at₂ + after)) := by
  constructor
  · intro sent hwhole
    have hA := sent.reachable.sound
    have hmerge := merge_eq hc.sound hanchor hA sent.sent sent.receivedAt sent.meshRttFloorUs
    have hbase := joined_baseStep hc.sound hA
    rw [hmerge]
    refine ⟨?_, ?_, rfl, merge_again hc.sound hanchor hA hwhole sent.sent⟩
    · intro s hs hge
      rw [joined_pauseBefore hA hwhole (hbase.ge.trans hge), if_neg (by omega)]
    · intro s hge hs
      rw [joined_pauseBefore hA hwhole (hbase.ge.trans hge), if_pos hs]
  · intro frames hwhole s hpast
    have hall : ∀ {d : SessionClock} {frames' : List SentFrame}, Reachable d → d.anchor.isSome →
        (∀ sent ∈ frames', sent.source.WholeMicros) → d.sources frames' = c.sources frames →
        (d.mergeAll frames').pauseBefore s = (c.sources frames).sup fun A => A.pauseBefore s := by
      intro d frames' hd hdanchor hdwhole hsame
      rw [← hsame] at hpast ⊢
      exact mergeAll_pauseBefore hd hdanchor hdwhole (hpast d (Finset.mem_insert_self _ _)) fun sent hsent =>
        hpast _ (Finset.mem_insert_of_mem (mem_toFinset.mpr (mem_map_of_mem hsent)))
    refine ⟨hall hc hanchor hwhole rfl, ?_⟩
    intro d frames' hd hdanchor hdwhole hsame
    obtain ⟨⟨k₁, at₁⟩, h₁⟩ := Option.isSome_iff_exists.mp hanchor
    obtain ⟨⟨k₂, at₂⟩, h₂⟩ := Option.isSome_iff_exists.mp hdanchor
    obtain rfl : k₁ = anchorStep := hc.sound.anchored _ h₁
    obtain rfl : k₂ = anchorStep := hd.sound.anchored _ h₂
    refine ⟨at₁, at₂, ((c.sources frames).sup fun A => A.pauseBefore s : Nat) +
      (stepsDuration (s - anchorStep) : Nat), h₁, h₂, ?_, ?_⟩
    · rw [expectedAt, mergeAll_anchor hc h₁, hall hc hanchor hwhole rfl]
      exact congrArg some (Int.add_assoc _ _ _)
    · rw [expectedAt, mergeAll_anchor hd h₂, hall hd hdanchor hdwhole hsame]
      exact congrArg some (Int.add_assoc _ _ _)

/-- The frame of a copy that stood still for a second at its first limit. -/
def standingFrame : SentFrame where
  source := ((empty.anchorAt 23 0).1.noteConfirmable none 24 1252000000).1
  reachable := (Reachable.empty.anchorAt 23 0).noteConfirmable none 24 1252000000
  sentAt := 1252000000
  frame := ⟨23, 1252000, 30, 0, 0, [⟨29, 1000000⟩]⟩
  sent := by decide
  receivedAt := 1300000000
  meshRttFloorUs := 0

/-- A copy anchored at the same time has the second from that frame. -/
theorem merge_is_join_example :
    let c := (empty.anchorAt 23 0).1
    c.anchor.isSome ∧ standingFrame.source.WholeMicros ∧ standingFrame.source.pauseBefore 31 = 1000000000 ∧
      (c.mergeAll [standingFrame, standingFrame]).pauseBefore 31 =
        (c.sources [standingFrame, standingFrame]).sup (fun A => A.pauseBefore 31) :=
  ⟨by decide, ⟨by decide, by decide⟩, by decide,
    ((merge_is_join (Reachable.empty.anchorAt 23 0) (by decide)).2 [standingFrame, standingFrame] (fun sent hsent => by
        obtain rfl : sent = standingFrame := by simpa using hsent
        exact ⟨by decide, by decide⟩) 31 (by decide)).1⟩

/-- The frame of a copy that stood a second at step 30, and has its limit at step 206 since. -/
def aheadFrame : SentFrame where
  source :=
    ((((empty.anchorAt 23 0).1.noteConfirmable none 24 0).1.noteConfirmable none 25 1294000000).1.noteConfirmable
      (some 200) 0 0).1
  reachable :=
    (((Reachable.empty.anchorAt 23 0).noteConfirmable none 24 0).noteConfirmable none 25
      1294000000).noteConfirmable (some 200) 0 0
  sentAt := 1300000000
  frame := ⟨23, 1300000, 206, 0, 0, [⟨30, 1000000⟩]⟩
  sent := by decide
  receivedAt := 1300000000
  meshRttFloorUs := 0

/-- Before the new base a merge can have counted a later stop: neither copy has stood still before step
    30, but the merged copy keeps the stop at step 30 as part of its base only. -/
theorem merge_below_base_not_max :
    let c := (empty.anchorAt 23 0).1
    let c' := (c.merge aheadFrame.frame aheadFrame.receivedAt aheadFrame.meshRttFloorUs).1
    Reachable c ∧ c.anchor.isSome ∧ aheadFrame.source.WholeMicros ∧ c.finalThrough < 30 ∧ 30 < c'.baseStep ∧
      c'.pauseBefore 30 = 1000000000 ∧ max (c.pauseBefore 30) (aheadFrame.source.pauseBefore 30) = 0 ∧
      (CopiedStops.fromFrame aheadFrame.frame).pauseBefore 30 = 0 :=
  ⟨Reachable.empty.anchorAt 23 0, by decide, ⟨by decide, by decide⟩, by decide, by decide, by decide, by decide, by decide⟩

end SessionClock

end RallyPoint.Relay
