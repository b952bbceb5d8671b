import Mathlib.Data.List.Find
import RallyPoint.Lib.Trace
import RallyPoint.Relay.Session.Presence

/-!
# `Relay.Correctness.Presence` — the relays' verdicts agree

Each relay judges the order from its own reports and from those it heard. A relay reads its own reports
by one rule and its peers' by another, and hears its peers' reports only in part; when what it heard of
each peer tells it the same liveness as the peer has itself, the verdicts of all relays name one and the
same relay.

- `Report`: what happens to a session's entry. A report that finds no entry may be dropped; the log keeps
  which were recorded.
- `Reflects`: the entry against the recorded reports. Every report keeps it.
- `Follows`: what a relay heard of a peer, against what the peer recorded of itself.
-/

namespace RallyPoint.Relay

open Lib Lib.Trace SessionPresence List Option

/-- What is recorded in a session's presence: an own count, a peer's count, or the descriptor's order. -/
inductive Report where
  | own (live : Nat)
  | peer (id : RelayId) (live : Nat)
  | order
deriving DecidableEq

/-- The report on the relay `ownId` whose descriptor ranks `ranked`, with whether it was recorded. -/
def Report.apply (ownId : RelayId) (ranked : List RelayId) (entry : Option SessionPresence) :
    Report → Option SessionPresence × Bool
  | own live => ((SessionPresence.recordOwn entry live).1, entry.isSome || decide (0 < live))
  | peer id live => ((SessionPresence.recordPeer entry id live).1, entry.isSome)
  | order => (some (.setOrder entry (resolveOrder ownId ranked)), true)

/-- The own counts recorded. -/
def ownCounts (log : List (Report × Bool)) : List Nat :=
  log.filterMap fun
    | (.own live, true) => some live
    | _ => none

/-- The counts recorded from the peer `i`. -/
def peerCounts (i : RelayId) (log : List (Report × Bool)) : List Nat :=
  log.filterMap fun
    | (.peer id live, true) => if id = i then some live else none
    | _ => none

/-- The relay's entry and log after its reports. -/
def presenceRun (ranked : List RelayId) (ownId : RelayId) (reports : List Report) :
    Option SessionPresence × List (Report × Bool) :=
  Trace.run (Report.apply ownId ranked) none reports

/-- The relay serves players, as its own reports tell it: it has none, or the last one is positive. -/
def Serving (own : List Nat) : Prop := ∀ c, own.getLast? = some c → 0 < c

instance (own : List Nat) : Decidable (Serving own) := by
  unfold Serving
  cases own.getLast? with
  | none => exact isTrue nofun
  | some c => exact decidable_of_iff (0 < c) (by simp)

/-- What was heard of a relay follows what it recorded itself: only zeros when it recorded nothing; else
    a positive count, and its last count last. -/
def Follows (own heard : List Nat) : Prop :=
  (own = [] → ∀ c ∈ heard, c = 0) ∧ (own ≠ [] → (∃ c ∈ heard, 0 < c) ∧ heard.getLast? = own.getLast?)

/-! ## The entry after a relay's reports -/

/-- The entry holds the last own count, and of each peer its last count and whether one was positive. -/
structure Reflects (ownId : RelayId) (ranked : List RelayId) (p : SessionPresence) (log : List (Report × Bool)) : Prop where
  own : p.ownReport = (ownCounts log).getLast?
  heard : ∀ i ∈ ranked, i ≠ ownId → p.peerReports.get? i = (peerCounts i log).getLast?
  ever : ∀ i ∈ ranked, i ≠ ownId → (i ∈ p.peersEverLive ↔ ∃ c ∈ peerCounts i log, 0 < c)
  ordered : (Report.order, true) ∈ log → p.order = resolveOrder ownId ranked

/-- Without an entry nothing was recorded. -/
structure Unrecorded (log : List (Report × Bool)) : Prop where
  own : ownCounts log = []
  heard : ∀ i, peerCounts i log = []
  ordered : (Report.order, true) ∉ log

/-- A session's entry against the reports so far. -/
def Recorded (ownId : RelayId) (ranked : List RelayId) (entry : Option SessionPresence)
    (log : List (Report × Bool)) : Prop :=
  match entry with
  | some p => Reflects ownId ranked p log
  | none => Unrecorded log

variable {ownId i : RelayId} {ranked : List RelayId} {p : SessionPresence} {log : List (Report × Bool)} {live : Nat}

@[simp] theorem ownCounts_append (r : Report) (kept : Bool) :
    ownCounts (log ++ [(r, kept)]) = ownCounts log ++ ownCounts [(r, kept)] := filterMap_append

@[simp] theorem peerCounts_append (r : Report) (kept : Bool) :
    peerCounts i (log ++ [(r, kept)]) = peerCounts i log ++ peerCounts i [(r, kept)] := filterMap_append

/-- A peer of the order is one of the order's candidates. -/
theorem peer_mem_resolveOrder (hi : i ∈ ranked) (hne : i ≠ ownId) : Candidate.peer i ∈ resolveOrder ownId ranked :=
  mem_map.mpr ⟨i, hi, if_neg hne⟩

theorem Reflects.withOwn (h : Reflects ownId ranked p log) :
    Reflects ownId ranked (p.withOwn live) (log ++ [(.own live, true)]) := by
  refine ⟨?_, fun i hi hne => ?_, fun i hi hne => ?_, fun hmem => h.ordered (by simpa using hmem)⟩
  · rw [ownCounts_append]
    simp [SessionPresence.withOwn, ownCounts]
  · rw [peerCounts_append]
    simpa [SessionPresence.withOwn, peerCounts] using h.heard i hi hne
  · rw [peerCounts_append]
    simpa [SessionPresence.withOwn, peerCounts] using h.ever i hi hne

theorem Reflects.withPeer (h : Reflects ownId ranked p log) (id : RelayId) :
    Reflects ownId ranked (p.withPeer id live) (log ++ [(.peer id live, true)]) := by
  refine ⟨?_, fun i hi hne => ?_, fun i hi hne => ?_, fun hmem => h.ordered (by simpa using hmem)⟩
  · rw [ownCounts_append]
    simpa [SessionPresence.withPeer, ownCounts] using h.own
  · rw [peerCounts_append]
    show (p.peerReports.insert id live).get? i = _
    rw [OrdMap.get?_insert]
    by_cases heq : i = id
    · simp [peerCounts, heq]
    · simpa [peerCounts, heq, Ne.symm heq] using h.heard i hi hne
  · rw [peerCounts_append]
    have hever := h.ever i hi hne
    show i ∈ (if 0 < live then insert id p.peersEverLive else p.peersEverLive) ↔ _
    by_cases hlive : 0 < live <;> by_cases heq : i = id
    · simp [peerCounts, hlive, heq]
    · simp [peerCounts, hlive, heq, Ne.symm heq, hever]
    · subst heq
      simp [peerCounts, hlive, hever]
    · simp [peerCounts, hlive, Ne.symm heq, hever]

/-- A new order keeps what was reported of the relays it names. -/
theorem Reflects.setOrder (h : Reflects ownId ranked p log) :
    Reflects ownId ranked (.setOrder (some p) (resolveOrder ownId ranked)) (log ++ [(.order, true)]) := by
  refine ⟨?_, fun i hi hne => ?_, fun i hi hne => ?_, fun _ => rfl⟩
  · rw [ownCounts_append]
    simpa [SessionPresence.setOrder, ownCounts] using h.own
  · rw [peerCounts_append]
    have hheard := h.heard i hi hne
    have hnamed := peer_mem_resolveOrder hi hne
    simp only [peerCounts, filterMap_cons_none, filterMap_nil, append_nil] at hheard ⊢
    rw [← hheard]
    ext c
    show (p.peerReports.filter _).get? i = some c ↔ _
    rw [OrdMap.get?_filter_eq_some]
    simp [hnamed]
  · rw [peerCounts_append]
    have hnamed := peer_mem_resolveOrder hi hne
    simpa [SessionPresence.setOrder, peerCounts, hnamed] using h.ever i hi hne

/-- The first entry of a session: an order for relays that have not reported. -/
theorem Unrecorded.setOrder (h : Unrecorded log) :
    Reflects ownId ranked (.setOrder none (resolveOrder ownId ranked)) (log ++ [(.order, true)]) := by
  have hempty : Reflects ownId ranked .empty log :=
    ⟨by rw [h.own]; rfl, fun i _ _ => by rw [h.heard i]; rfl, fun i _ _ => by simp [h.heard i, empty],
      fun hmem => absurd hmem h.ordered⟩
  exact hempty.setOrder

/-- Every report keeps the entry true to what was recorded. -/
theorem Recorded.apply {entry : Option SessionPresence} (h : Recorded ownId ranked entry log) (r : Report) :
    Recorded ownId ranked (r.apply ownId ranked entry).1 (log ++ [(r, (r.apply ownId ranked entry).2)]) := by
  cases entry with
  | some p =>
    cases r with
    | own live => exact Reflects.withOwn h
    | peer id live => exact Reflects.withPeer h id
    | order => exact Reflects.setOrder h
  | none =>
    have hnone : Unrecorded log := h
    cases r with
    | order => exact hnone.setOrder
    | peer id live =>
      refine ⟨?_, fun i => ?_, by simpa [Report.apply] using hnone.ordered⟩
      · rw [ownCounts_append, hnone.own]
        rfl
      · rw [peerCounts_append, hnone.heard i]
        rfl
    | own live =>
      simp only [Report.apply, recordOwn]
      by_cases hlive : 0 < live
      · rw [if_pos hlive]
        refine ⟨?_, fun i _ _ => ?_, fun i _ _ => ?_, fun hmem => ?_⟩
        · simp [ownCounts, hlive]
        · rw [peerCounts_append, hnone.heard i]
          rfl
        · rw [peerCounts_append, hnone.heard i]
          simp [empty, peerCounts]
        · exact absurd (by simpa using hmem) hnone.ordered
      · rw [if_neg hlive]
        refine ⟨?_, fun i => ?_, by simpa using hnone.ordered⟩
        · rw [ownCounts_append, hnone.own]
          simp [ownCounts, hlive]
        · rw [peerCounts_append, hnone.heard i]
          rfl

theorem presenceRun_recorded (reports : List Report) :
    Recorded ownId ranked (presenceRun ranked ownId reports).1 (presenceRun ranked ownId reports).2 :=
  run_invariant (I := Recorded ownId ranked) reports ⟨rfl, fun _ => rfl, nofun⟩ fun _ _ r _ h => h.apply r

variable {reports : List Report}

/-- The order's push is recorded wherever it comes. -/
theorem order_logged (h : Report.order ∈ reports) (entry : Option SessionPresence) :
    (Report.order, true) ∈ (Trace.run (Report.apply ownId ranked) entry reports).2 := by
  induction reports generalizing entry with
  | nil => cases h
  | cons r rs ih =>
    rw [run_cons]
    rcases mem_cons.mp h with rfl | h
    · exact mem_cons_self
    · exact mem_cons_of_mem _ (ih h _)

/-- A relay that was given the order has an entry with it. -/
theorem presenceRun_entry (h : Report.order ∈ reports) :
    ∃ p, (presenceRun ranked ownId reports).1 = some p ∧ Reflects ownId ranked p (presenceRun ranked ownId reports).2 ∧
      p.order = resolveOrder ownId ranked := by
  have hlogged : (Report.order, true) ∈ (presenceRun ranked ownId reports).2 := order_logged h none
  have hrecorded : Recorded ownId ranked _ _ := presenceRun_recorded reports
  cases hentry : (presenceRun ranked ownId reports).1 with
  | none =>
    rw [hentry] at hrecorded
    exact absurd hlogged hrecorded.ordered
  | some p =>
    rw [hentry] at hrecorded
    exact ⟨p, rfl, hrecorded, hrecorded.ordered hlogged⟩

/-! ## What the relays think of each other -/

theorem Reflects.ownLive_iff (h : Reflects ownId ranked p log) : p.ownLive = decide (Serving (ownCounts log)) := by
  rw [Bool.eq_iff_iff, decide_eq_true_iff]
  unfold ownLive Serving
  rw [h.own]
  cases (ownCounts log).getLast? <;> simp

/-- **A relay judges a peer as the peer judges itself**, when what it heard follows the peer's record. -/
theorem Reflects.peerLive_iff {own : List Nat} (h : Reflects ownId ranked p log) (hi : i ∈ ranked) (hne : i ≠ ownId)
    (hfollows : Follows own (peerCounts i log)) : p.peerLive i = decide (Serving own) := by
  have hever := h.ever i hi hne
  unfold peerLive
  rw [h.heard i hi hne]
  by_cases hown : own = []
  · -- nothing recorded: it is presumed live, and zeros alone do not take it out
    have hzeros := hfollows.1 hown
    have hnever : i ∉ p.peersEverLive := by
      rw [hever]
      rintro ⟨c, hc, hpos⟩
      exact absurd (hzeros c hc) hpos.ne'
    have hserving : Serving own := by simp [hown, Serving]
    simp [hserving, hnever]
  · obtain ⟨hpos, hlast⟩ := hfollows.2 hown
    rw [hlast]
    obtain ⟨c, hc⟩ := ne_none_iff_exists'.mp (mt getLast?_eq_none_iff.mp hown)
    simp [hc, Serving, hever.mpr hpos]

/-- The verdict of one relay, from what all of them recorded of themselves. -/
theorem verdict_eq (own : RelayId → List Nat) (h : Reflects ownId ranked p log)
    (horder : p.order = resolveOrder ownId ranked)
    (hmem : ownId ∈ ranked) (hown : own ownId = ownCounts log)
    (hheard : ∀ i ∈ ranked, i ≠ ownId → Follows (own i) (peerCounts i log)) :
    SessionPresence.verdict (some p) =
      some (if ranked.find? (fun i => decide (Serving (own i))) = some ownId then .selfRelay else .peer) := by
  have hne : ¬ p.order.isEmpty = true := by
    rw [horder, resolveOrder, List.isEmpty_iff, List.map_eq_nil_iff]
    exact ne_nil_of_mem hmem
  have hlive : ∀ i ∈ ranked, p.candidateLive (if i = ownId then .selfRelay else .peer i) = decide (Serving (own i)) := by
    intro i hi
    by_cases heq : i = ownId
    · rw [if_pos heq, heq, hown]
      exact h.ownLive_iff
    · rw [if_neg heq]
      exact h.peerLive_iff hi heq (hheard i hi heq)
  have hfirst : p.order.find? p.candidateLive = (ranked.find? fun i => decide (Serving (own i))).map
      fun i => if i = ownId then .selfRelay else .peer i := by
    rw [horder, resolveOrder, find?_map]
    exact congrArg (Option.map _) (find?_congr hlive)
  unfold SessionPresence.verdict
  simp only [if_neg hne, hfirst]
  cases ranked.find? fun i => decide (Serving (own i)) with
  | none => simp
  | some i => by_cases heq : i = ownId <;> simp [heq]

/-! ## All relays -/

/-- **The verdicts agree.** Relays share an order that names them all, each was given it, and what each
    heard of another follows what that one recorded of itself. Then a relay's verdict is itself exactly
    when it is the first in the order that recorded nothing or a positive count last, and is its peer
    otherwise. So one relay decides if there is such a relay, and none if there is not. -/
theorem verdicts_agree (ranked : List RelayId) (reports : RelayId → List Report)
    (hpushed : ∀ j ∈ ranked, Report.order ∈ reports j) (hheard : ∀ j ∈ ranked, ∀ i ∈ ranked, i ≠ j →
      Follows (ownCounts (presenceRun ranked i (reports i)).2) (peerCounts i (presenceRun ranked j (reports j)).2)) :
    let serving i := Serving (ownCounts (presenceRun ranked i (reports i)).2)
    let verdict j := SessionPresence.verdict (presenceRun ranked j (reports j)).1
    (∀ j ∈ ranked, verdict j = some .selfRelay ↔ ranked.find? (fun i => decide (serving i)) = some j) ∧
    (∀ j ∈ ranked, verdict j ≠ some .selfRelay → verdict j = some .peer) ∧
    ((∃ i ∈ ranked, serving i) → ∃! j, j ∈ ranked ∧ verdict j = some .selfRelay) ∧
    ((∀ i ∈ ranked, ¬ serving i) → ∀ j ∈ ranked, verdict j = some .peer) := by
  intro serving verdict
  have hverdict : ∀ j ∈ ranked, verdict j = some
    (if ranked.find? (fun i => decide (serving i)) = some j then .selfRelay else .peer) := by
    intro j hj
    obtain ⟨p, hentry, hreflects, horder⟩ :
      ∃ p, (presenceRun ranked j (reports j)).1 = some p ∧ Reflects j ranked p (presenceRun ranked j (reports j)).2 ∧ _ :=
      presenceRun_entry (hpushed j hj)
    show SessionPresence.verdict (presenceRun ranked j (reports j)).1 = _
    rw [hentry]
    exact verdict_eq (fun i => ownCounts (presenceRun ranked i (reports i)).2) hreflects horder hj rfl (hheard j hj)
  have hself : ∀ j ∈ ranked, verdict j = some .selfRelay ↔ ranked.find? (fun i => decide (serving i)) = some j := by
    intro j hj
    rw [hverdict j hj]
    split <;> simp_all
  refine ⟨hself, fun j hj hnot => ?_, fun hsome => ?_, fun hnone j hj => ?_⟩
  · rw [hverdict j hj] at hnot ⊢
    split <;> simp_all
  · obtain ⟨first, hfirst⟩ : ∃ first, ranked.find? (fun i => decide (serving i)) = some first := by
      rw [← isSome_iff_exists, find?_isSome]
      simpa using hsome
    refine ⟨first, ⟨mem_of_find?_eq_some hfirst, (hself first (mem_of_find?_eq_some hfirst)).mpr hfirst⟩, ?_⟩
    rintro j ⟨hj, hj'⟩
    exact some.inj (((hself j hj).mp hj').symm.trans hfirst)
  · rw [hverdict j hj, find?_eq_none.mpr (by simpa using hnone)]
    rfl

/-- Relay 1 serves a player and loses it, relay 2 has not reported, relay 3 serves: relay 2 decides. -/
theorem verdicts_agree_handover :
    let reports : RelayId → List Report := fun
      | 1 => [.order, .own 1, .peer 3 2, .own 0, .peer 2 0]
      | 2 => [.order, .peer 1 1, .peer 3 2, .peer 1 0]
      | _ => [.own 2, .order, .peer 2 0, .peer 1 1, .peer 1 0]
    (∀ j ∈ [1, 2, 3], SessionPresence.verdict (presenceRun [1, 2, 3] j (reports j)).1 = some .selfRelay ↔ j = 2) ∧
      ∃! j, j ∈ [1, 2, 3] ∧ SessionPresence.verdict (presenceRun [1, 2, 3] j (reports j)).1 = some .selfRelay := by
  intro reports
  obtain ⟨hself, _, hone, _⟩ := verdicts_agree [1, 2, 3] reports (by decide) (by unfold Follows; decide +kernel)
  have hfirst : [1, 2, 3].find? (fun i => decide
    (Serving (ownCounts (presenceRun [1, 2, 3] i (reports i)).2))) = some 2 := by
    decide +kernel
  refine ⟨fun j hj => ?_, hone ⟨2, by decide, by decide +kernel⟩⟩
  rw [hself j hj, hfirst, some.injEq, eq_comm]

end RallyPoint.Relay
