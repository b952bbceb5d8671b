import RallyPoint.Lib.Trace
import RallyPoint.Relay.Maker.Authority

/-!
# `Relay.Correctness.LeaveFrame` — the survivors bound a leave's frame

A leave applies no later than one frame past its ceiling, and the ceiling is read off the frames that the
surviving slots have stamped. Each slot's history is bounded and trimmed as turns arrive, so what has to
be shown is that the trimming never drops the entry the ceiling will be read from.

- `Keeps`: a history holds the newest of the observed turns; what it has dropped is below at least as
  many as it may hold.
- `Keeps.executed`: of a contiguous run of turns, the entry at the threshold, or else the first, is
  therefore still there.
- `reachableFrame_eq_some_iff`: the ceiling in terms of the histories alone.
-/

namespace RallyPoint.Relay

open Lib List DecisionMaker Prod

variable {e : Nat × Nat} {l : List (Nat × Nat)}

/-! ## Inserting a framed turn -/

section Insert

variable {seq frame : Nat}

theorem mem_insertFramed_fst {x : Nat} : x ∈ (DecisionMaker.insertFramed seq frame l).map Prod.fst ↔
    x = seq ∨ x ∈ l.map Prod.fst := by
  induction l with
  | nil => simp [insertFramed]
  | cons e rest ih =>
    unfold insertFramed
    split
    · simp
    · split
      · next heq =>
          rw [heq]
          simp
      · rw [map_cons, mem_cons, ih, map_cons, mem_cons]
        exact or_left_comm

theorem mem_of_mem_insertFramed (h : e ∈ DecisionMaker.insertFramed seq frame l) : e = (seq, frame) ∨ e ∈ l := by
  induction l with
  | nil => exact .inl (mem_singleton.mp h)
  | cons a rest ih =>
    unfold insertFramed at h
    split at h
    · exact mem_cons.mp h
    · split at h
      · exact .inr h
      · obtain rfl | h := mem_cons.mp h
        · exact .inr mem_cons_self
        · exact (ih h).imp_right (mem_cons_of_mem a)

/-- The entries of a history are by seq, each seq once. -/
def BySeq (l : List (Nat × Nat)) : Prop := l.Pairwise fun a b => a.1 < b.1

theorem insertFramed_bySeq (h : BySeq l) : BySeq (DecisionMaker.insertFramed seq frame l) := by
  induction l with
  | nil => exact pairwise_singleton _ _
  | cons e rest ih =>
    obtain ⟨he, hrest⟩ := pairwise_cons.mp h
    unfold insertFramed
    split
    · next hlt =>
        refine pairwise_cons.mpr ⟨fun a ha => ?_, h⟩
        obtain rfl | ha := mem_cons.mp ha
        · exact hlt
        · exact hlt.trans (he a ha)
    · split
      · exact h
      · refine pairwise_cons.mpr ⟨fun a ha => ?_, ih hrest⟩
        obtain rfl | ha := mem_of_mem_insertFramed ha
        · dsimp only
          omega
        · exact he a ha

theorem length_le_insertFramed : l.length ≤ (DecisionMaker.insertFramed seq frame l).length := by
  induction l with
  | nil => exact Nat.zero_le _
  | cons e rest ih =>
    unfold insertFramed
    split
    · exact Nat.le_succ _
    · split
      · exact le_rfl
      · exact Nat.succ_le_succ ih

/-- A seq that is not there yet makes the history longer. -/
theorem length_insertFramed_of_new (h : seq ∉ l.map Prod.fst) :
    (DecisionMaker.insertFramed seq frame l).length = l.length + 1 := by
  induction l with
  | nil => rfl
  | cons e rest ih =>
    rw [map_cons, mem_cons, not_or] at h
    unfold insertFramed
    split
    · rfl
    · rw [if_neg h.1, length_cons, ih h.2, length_cons]

end Insert

/-! ## The newest turns are kept -/

/-- **What a bounded history keeps of the turns observed**: some of them by seq; any other is below at
    least `cap` that it holds. -/
structure Keeps (cap : Nat) (observed history : List (Nat × Nat)) : Prop where
  sorted : BySeq history
  sub : ∀ e ∈ history, e ∈ observed
  dropped : ∀ e ∈ observed, e.1 ∈ history.map Prod.fst ∨ cap ≤ history.length ∧ ∀ a ∈ history, e.1 < a.1

namespace Keeps

variable {cap : Nat} {observed history : List (Nat × Nat)}

theorem nil (cap : Nat) : Keeps cap [] [] := ⟨.nil, fun _ h => h, fun _ h => absurd h (not_mem_nil)⟩

/-- In a list by seq, what is cut off at the front is below the rest. -/
theorem lt_of_cut (h : BySeq l) {k : Nat} {a b : Nat × Nat} (ha : a ∈ l.take k) (hb : b ∈ l.drop k) : a.1 < b.1 := by
  unfold BySeq at h
  rw [← take_append_drop k l] at h
  exact (pairwise_append.mp h).2.2 a ha b hb

/-- **One more turn**: inserted by seq, and the oldest one dropped if that makes the history too long. -/
theorem insert (h : Keeps cap observed history) (seq frame : Nat) :
    Keeps cap (observed ++ [(seq, frame)]) ((DecisionMaker.insertFramed seq frame history).drop
      ((DecisionMaker.insertFramed seq frame history).length - cap)) := by
  have hlonger : history.length ≤ (insertFramed seq frame history).length := length_le_insertFramed
  have hsorted : BySeq (insertFramed seq frame history) := insertFramed_bySeq h.sorted
  have hfst : ∀ x, x ∈ (insertFramed seq frame history).map fst ↔ x = seq ∨ x ∈ history.map fst :=
    fun _ => mem_insertFramed_fst
  have hnew : seq ∉ history.map fst → (insertFramed seq frame history).length = history.length + 1 :=
    length_insertFramed_of_new
  have hmem : ∀ e ∈ insertFramed seq frame history, e = (seq, frame) ∨ e ∈ history := fun _ => mem_of_mem_insertFramed
  generalize insertFramed seq frame history = l at *
  refine ⟨hsorted.sublist (drop_sublist _ _), ?_, ?_⟩
  · intro e he
    obtain rfl | he := hmem e (mem_of_mem_drop he)
    · exact mem_append_right _ mem_cons_self
    · exact mem_append_left _ (h.sub e he)
  · intro e he
    by_cases hin : e.1 ∈ l.map fst
    · -- inserted or kept so far: it stays, or it is cut off below the rest
      obtain ⟨a, ha, hae⟩ := mem_map.mp hin
      rw [← take_append_drop (l.length - cap) l] at ha
      obtain hcut | hkept := mem_append.mp ha
      · right
        have hpos : 0 < l.length - cap := by
          by_contra hzero
          rw [Nat.eq_zero_of_not_pos hzero] at hcut
          exact absurd hcut not_mem_nil
        refine ⟨by rw [length_drop]; omega, fun b hb => ?_⟩
        rw [← hae]
        exact lt_of_cut hsorted hcut hb
      · exact .inl (mem_map.mpr ⟨a, hkept, hae⟩)
    · -- dropped before: below everything kept then, so below everything kept now
      rw [hfst, not_or] at hin
      have hold : e ∈ observed := by
        obtain he | he := mem_append.mp he
        · exact he
        · exact absurd (congrArg fst (mem_singleton.mp he)) hin.1
      obtain hkept | ⟨hfull, hbelow⟩ := h.dropped e hold
      · exact absurd hkept hin.2
      · refine Or.inr ⟨by rw [length_drop]; omega, fun a ha => ?_⟩
        obtain rfl | hah := hmem a (mem_of_mem_drop ha)
        · -- the new one would be the very first, and the first of too many is cut off
          by_contra hnot
          have hle : seq ≤ e.1 := not_lt.mp hnot
          have hlen := hnew fun hold => by
            obtain ⟨b, hb, hbs⟩ := mem_map.mp hold
            have := hbelow b hb
            omega
          have hfirst : l[0] ∈ l.take (l.length - cap) := mem_take_iff_getElem.mpr ⟨0, by omega, rfl⟩
          have hlt : (l[0]).1 < seq := lt_of_cut hsorted hfirst ha
          obtain heq | hmem' := hmem _ (mem_of_mem_take hfirst)
          · rw [heq] at hlt
            exact lt_irrefl _ hlt
          · have := hbelow _ hmem'
            omega
        · exact hbelow a hah

/-- Seqs above `x` in ascending order leave `x` behind by as many as there are. -/
theorem exists_ge_of_bySeq (h : BySeq l) {x : Nat} (hx : ∀ a ∈ l, x < a.1) (hne : l ≠ []) :
    ∃ a ∈ l, x + l.length ≤ a.1 := by
  induction l generalizing x with
  | nil => exact absurd rfl hne
  | cons e rest ih =>
    obtain ⟨he, hrest⟩ := pairwise_cons.mp h
    have hxe := hx e mem_cons_self
    by_cases hnil : rest = []
    · subst hnil
      exact ⟨e, mem_cons_self, hxe⟩
    · obtain ⟨a, ha, hle⟩ := ih hrest he hnil
      refine ⟨a, mem_cons_of_mem _ ha, ?_⟩
      rw [length_cons]
      omega

/-- A turn not too far behind the newest one is kept. -/
theorem recent (h : Keeps cap observed history) (hcap : 0 < cap) (he : e ∈ observed)
    (hnear : ∀ a ∈ observed, a.1 < e.1 + cap) : e.1 ∈ history.map Prod.fst := by
  obtain hkept | ⟨hfull, hbelow⟩ := h.dropped e he
  · exact hkept
  · obtain ⟨a, ha, hle⟩ := exists_ge_of_bySeq h.sorted hbelow (ne_nil_of_length_pos (by omega))
    have := hnear a (h.sub a ha)
    omega

/-- The newest turn is kept. -/
theorem newest (h : Keeps cap observed history) (hcap : 0 < cap) (he : e ∈ observed)
    (hmax : ∀ a ∈ observed, a.1 ≤ e.1) : e.1 ∈ history.map Prod.fst :=
  h.recent hcap he fun a ha => (hmax a ha).trans_lt (Nat.lt_add_of_pos_right hcap)

end Keeps

/-! ## The frame executed by a threshold -/

/-- A slot's turns are a contiguous run of seqs, and its frames never go back. -/
structure Steady (observed : List (Nat × Nat)) : Prop where
  contiguous : ∀ a ∈ observed, ∀ b ∈ observed, ∀ seq, a.1 ≤ seq → seq ≤ b.1 → ∃ e ∈ observed, e.1 = seq
  monotone : ∀ a ∈ observed, ∀ b ∈ observed, a.1 ≤ b.1 → a.2 ≤ b.2

/-- `frame` is what the slot stamped at its greatest seq up to `threshold`, or else at its first one. -/
def StampedBy (threshold : Nat) (observed : List (Nat × Nat)) (frame : Nat) : Prop :=
  ∃ seq, (seq, frame) ∈ observed ∧ (seq ≤ threshold ∧ (∀ e ∈ observed, e.1 ≤ threshold → e.1 ≤ seq) ∨
      (∀ e ∈ observed, threshold < e.1) ∧ ∀ e ∈ observed, seq ≤ e.1)

/-- A steady slot has stamped one such frame. -/
theorem StampedBy.unique {threshold frame frame' : Nat} {observed : List (Nat × Nat)} (hsteady : Steady observed)
    (h : StampedBy threshold observed frame) (h' : StampedBy threshold observed frame') : frame = frame' := by
  obtain ⟨seq, hmem, hwhich⟩ := h
  obtain ⟨seq', hmem', hwhich'⟩ := h'
  have hseq : seq = seq' := by
    obtain ⟨hle, hmax⟩ | ⟨hnone, hmin⟩ := hwhich <;> obtain ⟨hle', hmax'⟩ | ⟨hnone', hmin'⟩ := hwhich'
    · exact le_antisymm (hmax' _ hmem hle) (hmax _ hmem' hle')
    · exact absurd hle (not_le.mpr (hnone' _ hmem))
    · exact absurd hle' (not_le.mpr (hnone _ hmem'))
    · exact le_antisymm (hmin _ hmem') (hmin' _ hmem)
  subst hseq
  exact le_antisymm (hsteady.monotone _ hmem _ hmem' le_rfl) (hsteady.monotone _ hmem' _ hmem le_rfl)

theorem Steady.congr {observed observed' : List (Nat × Nat)} (h : Steady observed)
    (hsame : ∀ e, e ∈ observed' ↔ e ∈ observed) :
    Steady observed' where
  contiguous a ha b hb seq hle hge := by
    obtain ⟨e, he, hseq⟩ := h.contiguous a ((hsame a).mp ha) b ((hsame b).mp hb) seq hle hge
    exact ⟨e, (hsame e).mpr he, hseq⟩
  monotone a ha b hb := h.monotone a ((hsame a).mp ha) b ((hsame b).mp hb)

theorem StampedBy.congr {threshold frame : Nat} {observed observed' : List (Nat × Nat)}
    (hsame : ∀ e, e ∈ observed' ↔ e ∈ observed) :
    StampedBy threshold observed' frame ↔ StampedBy threshold observed frame := by
  unfold StampedBy
  simp only [hsame]

/-- Of the turns up to a threshold, one has the greatest seq. -/
theorem exists_greatest {observed : List (Nat × Nat)} {p : Nat × Nat → Prop} [DecidablePred p] (h : ∃ e ∈ observed, p e) :
    ∃ e ∈ observed, p e ∧ ∀ a ∈ observed, p a → a.1 ≤ e.1 := by
  obtain ⟨e, he, hpe⟩ := h
  have hne : (observed.toFinset.filter p).Nonempty := ⟨e, Finset.mem_filter.mpr ⟨mem_toFinset.mpr he, hpe⟩⟩
  obtain ⟨g, hg, hmax⟩ := Finset.exists_max_image _ fst hne
  obtain ⟨hg, hpg⟩ := Finset.mem_filter.mp hg
  exact ⟨g, mem_toFinset.mp hg, hpg, fun a ha hpa => hmax a (Finset.mem_filter.mpr ⟨mem_toFinset.mpr ha, hpa⟩)⟩

section Executed

variable {cap : Nat} {observed history : List (Nat × Nat)}

/-- A kept seq is kept with the frame it was stamped with. -/
theorem Keeps.mem_of_fst (h : Keeps cap observed history) (hsteady : Steady observed) (he : e ∈ observed)
    (hkept : e.1 ∈ history.map Prod.fst) : e ∈ history := by
  obtain ⟨a, ha, hae⟩ := mem_map.mp hkept
  have hao := h.sub a ha
  have hframe : a.2 = e.2 := le_antisymm (hsteady.monotone a hao e he hae.le) (hsteady.monotone e he a hao hae.ge)
  rwa [← Prod.ext hae hframe]

/-- **The entry the ceiling is read from is never trimmed**, as long as the threshold is within `cap` of
    every turn the steady slot has sent. -/
theorem Keeps.executed (h : Keeps cap observed history) (hsteady : Steady observed) (hcap : 0 < cap) {threshold : Nat}
    (hnear : ∀ e ∈ observed, e.1 < threshold + cap) (hne : observed ≠ []) :
    ∃ frame, DecisionMaker.executedFrame threshold history = some frame ∧ StampedBy threshold observed frame := by
  unfold executedFrame
  by_cases hsome : ∃ e ∈ observed, e.1 ≤ threshold
  · obtain ⟨g, hg, hle, hmax⟩ := exists_greatest hsome
    -- the greatest one is at the threshold, or it is the newest of all
    have hkept : g.1 ∈ history.map fst := by
      by_cases hpast : ∃ e ∈ observed, threshold < e.1
      · obtain ⟨e, he, hlt⟩ := hpast
        obtain ⟨a, ha, hat⟩ := hsteady.contiguous g hg e he threshold hle hlt.le
        have hgt : g.1 = threshold := le_antisymm hle (hat.ge.trans (hmax a ha hat.le))
        refine h.recent hcap hg fun b hb => ?_
        rw [hgt]
        exact hnear b hb
      · refine h.newest hcap hg fun a ha => hmax a ha ?_
        by_contra hlt
        exact hpast ⟨a, ha, not_le.mp hlt⟩
    have hmem := h.mem_of_fst hsteady hg hkept
    have hframe : ((history.filter (·.1 ≤ threshold)).map (·.2)).max? = some g.2 := by
      refine max?_eq_some_iff.mpr ⟨mem_map_of_mem (mem_filter.mpr ⟨hmem, by simpa using hle⟩), ?_⟩
      intro frame hframe
      obtain ⟨a, ha, rfl⟩ := mem_map.mp hframe
      obtain ⟨ha, hat⟩ := mem_filter.mp ha
      have hao := h.sub a ha
      exact hsteady.monotone a hao g hg (hmax a hao (by simpa using hat))
    exact ⟨g.2, by rw [hframe]; rfl, g.1, hg, Or.inl ⟨hle, hmax⟩⟩
  · -- every turn is past the threshold, so all of them are kept
    have hpast : ∀ e ∈ observed, threshold < e.1 := fun e he => not_le.mp fun hle => hsome ⟨e, he, hle⟩
    have hall : ∀ e ∈ observed, e ∈ history := fun e he =>
      h.mem_of_fst hsteady he (h.recent hcap he fun a ha => (hnear a ha).trans (Nat.add_lt_add_right (hpast e he) cap))
    have hnone : history.filter (·.1 ≤ threshold) = [] :=
      filter_eq_nil_iff.mpr fun a ha => by simpa using hpast a (h.sub a ha)
    cases history with
    | nil =>
      obtain ⟨e, he⟩ := exists_mem_of_ne_nil _ hne
      exact absurd (hall e he) not_mem_nil
    | cons first rest =>
      have hfirst := h.sub first mem_cons_self
      refine ⟨first.2, by rw [hnone]; rfl, first.1, hfirst, Or.inr ⟨hpast, fun e he => ?_⟩⟩
      obtain rfl | hin := mem_cons.mp (hall e he)
      · exact le_rfl
      · exact ((pairwise_cons.mp h.sorted).1 e hin).le

/-- The last entry is of the newest turn. -/
theorem Keeps.getLast (h : Keeps cap observed history) (hcap : 0 < cap) (he : e ∈ observed)
    (hmax : ∀ a ∈ observed, a.1 ≤ e.1) : history.getLast?.map Prod.fst = some e.1 := by
  obtain ⟨b, hb, hbe⟩ := mem_map.mp (h.newest hcap he hmax)
  cases hlast : history.getLast? with
  | none =>
    rw [getLast?_eq_none_iff.mp hlast] at hb
    exact absurd hb not_mem_nil
  | some a =>
    obtain ⟨init, rfl⟩ := getLast?_eq_some_iff.mp hlast
    have hle : a.1 ≤ e.1 := hmax a (h.sub a (mem_append_right _ mem_cons_self))
    have hge : e.1 ≤ a.1 := by
      obtain hb | hb := mem_append.mp hb
      · have := (pairwise_append.mp h.sorted).2.2 b hb a mem_cons_self
        omega
      · rw [← hbe, mem_singleton.mp hb]
    exact congrArg some (le_antisymm hle hge)

end Executed

/-! ## The ceiling -/

namespace DecisionMaker

variable {m : DecisionMaker} {d : SlotId}

/-- The framed turns the maker holds of a slot. -/
def history (m : DecisionMaker) (slot : SlotId) : List (Nat × Nat) := ((m.slots.get? slot).map (·.frameHistory)).getD []

/-- What is read off the survivors' histories, where an empty one gives nothing. -/
theorem mem_survivors {f : List (Nat × Nat) → Option Nat} (hf : f [] = none) {x : Nat} :
    x ∈ ((m.slots.entries.filter (·.1 ≠ d)).map (·.2.frameHistory)).filterMap f ↔ ∃ slot,
      slot ≠ d ∧ f (m.history slot) = some x := by
  rw [mem_filterMap]
  constructor
  · rintro ⟨l, hl, hx⟩
    obtain ⟨e, he, rfl⟩ := mem_map.mp hl
    obtain ⟨he, hne⟩ := mem_filter.mp he
    have hget : m.slots.get? e.1 = some e.2 := OrdMap.get?_eq_some.mpr he
    exact ⟨e.1, by simpa using hne, by rw [history, hget]; exact hx⟩
  · rintro ⟨slot, hne, hx⟩
    cases hget : m.slots.get? slot with
    | none =>
      rw [history, hget] at hx
      rw [Option.map_none, Option.getD_none, hf] at hx
      cases hx
    | some state =>
      rw [history, hget] at hx
      refine ⟨state.frameHistory, mem_map.mpr ⟨(slot, state), mem_filter.mpr ⟨?_, by simpa using hne⟩, rfl⟩, hx⟩
      exact OrdMap.get?_eq_some.mp hget

theorem executedFrame_isSome (threshold : Nat) (h : l ≠ []) : (executedFrame threshold l).isSome := by
  unfold executedFrame
  cases ((l.filter (·.1 ≤ threshold)).map (·.2)).max? with
  | some _ => rfl
  | none =>
    cases l with
    | nil => exact absurd rfl h
    | cons _ _ => rfl

/-- The ceiling, where the newest framed turn of a survivor is known. -/
theorem reachableFrame_eq_some_iff {frontier frame : Nat}
    (hfrontier : IsGreatest {seq | ∃ slot, slot ≠ d ∧ (m.history slot).getLast?.map Prod.fst = some seq} frontier) :
    m.reachableFrame d = some frame ↔
      IsLeast {frame | ∃ slot, slot ≠ d ∧ executedFrame (frontier - m.bounds.max) (m.history slot) = some frame} frame := by
  have hmax : (((m.slots.entries.filter (·.1 ≠ d)).map (·.2.frameHistory)).filterMap
      fun history => history.getLast?.map (·.1)).max? = some frontier := by
    refine max?_eq_some_iff.mpr ⟨(mem_survivors rfl).mpr hfrontier.1, fun seq hseq => ?_⟩
    exact hfrontier.2 ((mem_survivors rfl).mp hseq)
  unfold reachableFrame
  dsimp only
  rw [hmax]
  show min? _ = some frame ↔ _
  rw [min?_eq_some_iff]
  constructor
  · rintro ⟨hmem, hle⟩
    exact ⟨(mem_survivors rfl).mp hmem, fun x hx => hle x ((mem_survivors rfl).mpr hx)⟩
  · rintro ⟨hmem, hle⟩
    exact ⟨(mem_survivors rfl).mpr hmem, fun x hx => hle ((mem_survivors rfl).mp hx)⟩

/-- There is no ceiling exactly when no survivor has framed a turn. -/
theorem reachableFrame_eq_none_iff : m.reachableFrame d = none ↔ ∀ slot, slot ≠ d → m.history slot = [] := by
  unfold reachableFrame
  constructor
  · intro hnone slot hne
    by_contra hhistory
    obtain ⟨last, hlast⟩ := Option.isSome_iff_exists.mp (getLast?_isSome.mpr hhistory)
    have hmem := (mem_survivors (m := m) (f := fun history => history.getLast?.map (·.1)) rfl).mpr
      ⟨slot, hne, by rw [hlast]; rfl⟩
    cases hmax : (((m.slots.entries.filter (·.1 ≠ d)).map (·.2.frameHistory)).filterMap fun history =>
      history.getLast?.map (·.1)).max? with
    | none =>
      rw [max?_eq_none_iff.mp hmax] at hmem
      exact absurd hmem not_mem_nil
    | some frontier =>
      dsimp only at hnone
      rw [hmax] at hnone
      obtain ⟨frame, hframe⟩ := Option.isSome_iff_exists.mp (executedFrame_isSome (frontier - m.bounds.max) hhistory)
      have hexecuted := (mem_survivors (m := m) (f := executedFrame (frontier - m.bounds.max)) rfl).mpr ⟨slot, hne, hframe⟩
      have hempty := min?_eq_none_iff.mp hnone
      rw [hempty] at hexecuted
      exact absurd hexecuted not_mem_nil
  · intro h
    have hnil : ((m.slots.entries.filter (·.1 ≠ d)).map (·.2.frameHistory)).filterMap (fun history =>
      history.getLast?.map (·.1)) = [] := by
      refine eq_nil_iff_forall_not_mem.mpr fun x hx => ?_
      obtain ⟨slot, hne, hx⟩ := (mem_survivors (f := fun history => history.getLast?.map (·.1)) rfl).mp hx
      rw [h slot hne] at hx
      cases hx
    dsimp only
    rw [hnil]
    rfl

end DecisionMaker

/-! ## Runs -/

/-- A turn that carries a frame. -/
structure FramedTurn where
  slot : SlotId
  seq : Nat
  frame : Nat
deriving DecidableEq

/-- The seqs and frames of a slot's turns. -/
def turnsOf (slot : SlotId) (turns : List FramedTurn) : List (Nat × Nat) :=
  (turns.filter (·.slot = slot)).map fun t => (t.seq, t.frame)

theorem turnsOf_append (slot : SlotId) (turns turns' : List FramedTurn) :
    turnsOf slot (turns ++ turns') = turnsOf slot turns ++ turnsOf slot turns' := by
  simp [turnsOf]

namespace DecisionMaker

variable (m : DecisionMaker) (d : SlotId)

/-- A slot other than the departing one that has not departed itself. -/
def Survives (d slot : SlotId) : Prop := slot ≠ d ∧ m.departed slot = false

/-- What else may happen to the maker: anything that leaves the bounds and the other slots' departures
    and histories alone. -/
structure SameSurvivors (d : SlotId) (m m' : DecisionMaker) : Prop where
  bounds : m'.bounds = m.bounds
  departed : ∀ slot, slot ≠ d → m'.departed slot = m.departed slot
  history : ∀ slot, slot ≠ d → m'.history slot = m.history slot

/-- One step of a session whose framed turns are observed. -/
inductive FrameStep (d : SlotId) (m : DecisionMaker) : List FramedTurn → DecisionMaker → Prop
  | observe (t : FramedTurn) : FrameStep d m [t] (m.observeTurnFrame t.slot t.seq t.frame).1
  | other {m' : DecisionMaker} (h : SameSurvivors d m m') : FrameStep d m [] m'

/-- How many framed turns are kept of a slot. -/
def historyCap : Nat := max (m.bounds.max + 4) 8

theorem history_observeTurnFrame (slot slot' : SlotId) (seq frame : Nat) :
    (m.observeTurnFrame slot seq frame).1.history slot' = if m.departed slot then m.history slot' else if slot' = slot then
        (insertFramed seq frame (m.history slot)).drop ((insertFramed seq frame (m.history slot)).length - m.historyCap)
      else m.history slot' := by
  unfold observeTurnFrame
  split
  · rfl
  · unfold history
    dsimp only
    rw [OrdMap.get?_insert]
    by_cases hslot : slot' = slot
    · subst hslot
      rw [if_pos rfl, if_pos rfl]
      cases m.slots.get? slot' with
      | none => rfl
      | some _ => rfl
    · rw [if_neg hslot, if_neg hslot]

/-- What a run from `m` has kept of the turns observed in it. -/
structure FramesKept (d : SlotId) (m m' : DecisionMaker) (turns : List FramedTurn) : Prop where
  bounds : m'.bounds = m.bounds
  departed : ∀ slot, slot ≠ d → m'.departed slot = m.departed slot
  gone : ∀ slot, slot ≠ d → m.departed slot = true → m'.history slot = []
  kept : ∀ slot, m.Survives d slot → Keeps m.historyCap (turnsOf slot turns) (m'.history slot)

theorem framesKept_step {d : SlotId} {m m' m'' : DecisionMaker} {turns e : List FramedTurn} (h : FramesKept d m m' turns)
    (hstep : FrameStep d m' e m'') : FramesKept d m m'' (turns ++ e) := by
  cases hstep with
  | other hsame =>
    rw [append_nil]
    refine ⟨hsame.bounds.trans h.bounds, fun slot hne => (hsame.departed slot hne).trans (h.departed slot hne), ?_, ?_⟩
    · intro slot hne hgone
      rw [hsame.history slot hne]
      exact h.gone slot hne hgone
    · intro slot hslot
      rw [hsame.history slot hslot.1]
      exact h.kept slot hslot
  | observe t =>
    have hframe : (m'.observeTurnFrame t.slot t.seq t.frame).1.bounds = m'.bounds ∧
        (m'.observeTurnFrame t.slot t.seq t.frame).1.departures = m'.departures := by
      unfold observeTurnFrame
      split <;> exact ⟨rfl, rfl⟩
    have hcap : m'.historyCap = m.historyCap := by rw [historyCap, h.bounds]; rfl
    refine ⟨hframe.1.trans h.bounds, fun slot hne => ?_, ?_, ?_⟩
    · rw [← h.departed slot hne]
      unfold departed
      rw [hframe.2]
    · intro slot hne hgone
      have hnil := h.gone slot hne hgone
      rw [history_observeTurnFrame]
      split
      · exact hnil
      · next hlive =>
          rw [if_neg, hnil]
          rintro rfl
          exact hlive ((h.departed _ hne).trans hgone)
    · intro slot hslot
      have hkept := h.kept slot hslot
      rw [history_observeTurnFrame, turnsOf_append]
      by_cases hown : slot = t.slot
      · subst hown
        have hlive : ¬ m'.departed t.slot = true := by
          rw [h.departed _ hslot.1, hslot.2]
          exact Bool.false_ne_true
        rw [if_neg hlive, if_pos rfl, hcap]
        have hone : turnsOf t.slot [t] = [(t.seq, t.frame)] := by simp [turnsOf]
        rw [hone]
        exact hkept.insert t.seq t.frame
      · have hnone : turnsOf slot [t] = [] := by simp [turnsOf, Ne.symm hown]
        rw [if_neg hown, ite_self, hnone, append_nil]
        exact hkept

theorem framesKept_run {d : SlotId} {m m' : DecisionMaker} {turns : List FramedTurn}
    (hstart : ∀ slot, slot ≠ d → m.history slot = []) (hrun : Trace.Steps (FrameStep d) m turns m') :
    FramesKept d m m' turns := by
  have hinit : FramesKept d m m [] := by
    refine ⟨rfl, fun _ _ => rfl, fun slot hne _ => hstart slot hne, fun slot hslot => ?_⟩
    rw [hstart slot hslot.1]
    exact Keeps.nil _
  exact hrun.keeps (I := FramesKept d m) (fun _ _ _ _ hstep h => framesKept_step h hstep) [] hinit

/-! ## The ceiling of a run -/

/-- The seqs the survivors have framed. -/
def survivorSeqs (turns : List FramedTurn) : Set Nat :=
  {seq | ∃ slot, m.Survives d slot ∧ seq ∈ (turnsOf slot turns).map Prod.fst}

/-- The frames the survivors have stamped by a threshold. -/
def survivorFrames (turns : List FramedTurn) (threshold : Nat) : Set Nat :=
  {frame | ∃ slot, m.Survives d slot ∧ StampedBy threshold (turnsOf slot turns) frame}

section Ceiling

variable {m m' : DecisionMaker} {d : SlotId} {turns : List FramedTurn}

theorem historyCap_pos (m : DecisionMaker) : 0 < m.historyCap := lt_of_lt_of_le (by decide) (le_max_right _ _)

variable {slot : SlotId}

section FramesKept

variable (h : FramesKept d m m' turns)
include h

/-- A slot the maker holds a history of survives. -/
theorem FramesKept.survives (hne : slot ≠ d) (hhistory : m'.history slot ≠ []) :
    m.Survives d slot := by
  refine ⟨hne, ?_⟩
  by_contra hgone
  exact hhistory (h.gone slot hne (by simpa using hgone))

/-- The newest turn of the histories is the newest of the survivors. -/
theorem FramesKept.frontier {frontier : Nat} (hgreatest : IsGreatest (m.survivorSeqs d turns) frontier) :
    IsGreatest {seq | ∃ slot, slot ≠ d ∧ (m'.history slot).getLast?.map Prod.fst = some seq} frontier := by
  obtain ⟨⟨slot, hslot, hmem⟩, hupper⟩ := hgreatest
  obtain ⟨e, he, rfl⟩ := mem_map.mp hmem
  constructor
  · exact ⟨slot, hslot.1, (h.kept slot hslot).getLast m.historyCap_pos he fun a ha =>
      hupper ⟨slot, hslot, mem_map_of_mem ha⟩⟩
  · rintro seq ⟨slot', hne, hseq⟩
    obtain ⟨a, ha, rfl⟩ := Option.map_eq_some_iff.mp hseq
    have hmem : a ∈ m'.history slot' := mem_of_getLast? ha
    have hslot' := h.survives hne (ne_nil_of_mem hmem)
    exact hupper ⟨slot', hslot', mem_map_of_mem ((h.kept slot' hslot').sub a hmem)⟩

/-- The frames read off the histories are the ones the survivors have stamped by the threshold. -/
theorem FramesKept.executed (hsteady : ∀ slot, m.Survives d slot → Steady (turnsOf slot turns))
    {frontier : Nat} (hgreatest : IsGreatest (m.survivorSeqs d turns) frontier) :
    {frame | ∃ slot, slot ≠ d ∧ executedFrame (frontier - m'.bounds.max) (m'.history slot) = some frame} =
      m.survivorFrames d turns (frontier - m.bounds.max) := by
  have hstamped : ∀ slot, m.Survives d slot → turnsOf slot turns ≠ [] →
      ∃ frame, executedFrame (frontier - m.bounds.max) (m'.history slot) = some frame ∧
        StampedBy (frontier - m.bounds.max) (turnsOf slot turns) frame := by
    intro slot hslot hne
    refine (h.kept slot hslot).executed (hsteady slot hslot) m.historyCap_pos (fun e he => ?_) hne
    have hle : e.1 ≤ frontier := hgreatest.2 ⟨slot, hslot, mem_map_of_mem he⟩
    have hcap : m.bounds.max + 4 ≤ m.historyCap := le_max_left _ _
    omega
  rw [h.bounds]
  ext frame
  constructor
  · rintro ⟨slot, hne, hframe⟩
    have hhistory : m'.history slot ≠ [] := by
      intro hnil
      rw [hnil] at hframe
      cases hframe
    have hslot := h.survives hne hhistory
    obtain ⟨e, he⟩ := exists_mem_of_ne_nil _ hhistory
    obtain ⟨frame', hframe', hby⟩ := hstamped slot hslot (ne_nil_of_mem ((h.kept slot hslot).sub e he))
    obtain rfl : frame' = frame := Option.some.inj (hframe'.symm.trans hframe)
    exact ⟨slot, hslot, hby⟩
  · rintro ⟨slot, hslot, hby⟩
    have hne : turnsOf slot turns ≠ [] := by
      obtain ⟨seq, hmem, -⟩ := hby
      exact ne_nil_of_mem hmem
    obtain ⟨frame', hframe', hby'⟩ := hstamped slot hslot hne
    rw [hby.unique (hsteady slot hslot) hby']
    exact ⟨slot, hslot.1, hframe'⟩

/-- **The ceiling of a run**, by the newest turn of a survivor. -/
theorem FramesKept.reachableFrame_iff
    (hsteady : ∀ slot, m.Survives d slot → Steady (turnsOf slot turns)) {frontier : Nat}
    (hgreatest : IsGreatest (m.survivorSeqs d turns) frontier) (frame : Nat) :
    m'.reachableFrame d = some frame ↔ IsLeast (m.survivorFrames d turns (frontier - m.bounds.max)) frame := by
  rw [reachableFrame_eq_some_iff (h.frontier hgreatest), h.executed hsteady hgreatest]

end FramesKept

theorem mem_turnsOf : e ∈ turnsOf slot turns ↔ (⟨slot, e.1, e.2⟩ : FramedTurn) ∈ turns := by
  unfold turnsOf
  rw [mem_map]
  constructor
  · rintro ⟨t, ht, rfl⟩
    obtain ⟨hmem, hslot⟩ := mem_filter.mp ht
    obtain rfl : t.slot = slot := by simpa using hslot
    exact hmem
  · intro h
    exact ⟨_, mem_filter.mpr ⟨h, by simp⟩, rfl⟩

/-- Survivors with a framed turn have a newest one. -/
theorem exists_frontier (hslot : m.Survives d slot) (hne : turnsOf slot turns ≠ []) :
    ∃ frontier, IsGreatest (m.survivorSeqs d turns) frontier := by
  classical
  obtain ⟨e, he⟩ := exists_mem_of_ne_nil _ hne
  have hnonempty : (turns.toFinset.filter fun t => m.Survives d t.slot).Nonempty :=
    ⟨⟨slot, e.1, e.2⟩, Finset.mem_filter.mpr ⟨mem_toFinset.mpr (mem_turnsOf.mp he), hslot⟩⟩
  obtain ⟨t, ht, hmax⟩ := Finset.exists_max_image _ FramedTurn.seq hnonempty
  obtain ⟨ht, hsurvives⟩ := Finset.mem_filter.mp ht
  have hmem : (t.seq, t.frame) ∈ turnsOf t.slot turns := mem_turnsOf.mpr (mem_toFinset.mp ht)
  refine ⟨t.seq, ⟨t.slot, hsurvives, mem_map_of_mem hmem⟩, ?_⟩
  rintro seq ⟨slot', hslot', hseq⟩
  obtain ⟨a, ha, rfl⟩ := mem_map.mp hseq
  exact hmax ⟨slot', a.1, a.2⟩ (Finset.mem_filter.mpr ⟨mem_toFinset.mpr (mem_turnsOf.mp ha), hslot'⟩)

theorem FramesKept.none_iff (h : FramesKept d m m' turns) :
    m'.reachableFrame d = none ↔ ∀ slot, m.Survives d slot → turnsOf slot turns = [] := by
  rw [reachableFrame_eq_none_iff]
  constructor
  · intro hnil slot hslot
    refine eq_nil_iff_forall_not_mem.mpr fun e he => ?_
    have hpos := m.historyCap_pos
    obtain hkept | ⟨hfull, -⟩ := (h.kept slot hslot).dropped e he
    · rw [hnil slot hslot.1] at hkept
      exact absurd hkept not_mem_nil
    · rw [hnil slot hslot.1, length_nil] at hfull
      omega
  · intro hnone slot hne
    by_contra hhistory
    have hslot := h.survives hne hhistory
    obtain ⟨e, he⟩ := exists_mem_of_ne_nil _ hhistory
    have hmem := (h.kept slot hslot).sub e he
    rw [hnone slot hslot] at hmem
    exact absurd hmem not_mem_nil

end Ceiling

/-- Two runs in which the survivors are the same and have framed the same turns have the same ceiling. -/
theorem FramesKept.reachableFrame_eq {m m' n n' : DecisionMaker} {d : SlotId} {turns turns' : List FramedTurn}
    (h : FramesKept d m m' turns) (h' : FramesKept d n n' turns')
    (hsteady : ∀ slot, m.Survives d slot → Steady (turnsOf slot turns)) (hbounds : n.bounds.max = m.bounds.max)
    (hsurvive : ∀ slot, n.Survives d slot ↔ m.Survives d slot)
    (hsame : ∀ slot, m.Survives d slot → ∀ e, e ∈ turnsOf slot turns' ↔ e ∈ turnsOf slot turns) :
    n'.reachableFrame d = m'.reachableFrame d := by
  have hseqs : n.survivorSeqs d turns' = m.survivorSeqs d turns := by
    ext seq
    refine exists_congr fun slot => ?_
    rw [hsurvive slot]
    refine and_congr_right fun hslot => ?_
    simp only [mem_map, hsame slot hslot]
  have hframes : ∀ threshold, n.survivorFrames d turns' threshold = m.survivorFrames d turns threshold := by
    intro threshold
    ext frame
    refine exists_congr fun slot => ?_
    rw [hsurvive slot]
    exact and_congr_right fun hslot => StampedBy.congr (hsame slot hslot)
  have hsteady' : ∀ slot, n.Survives d slot → Steady (turnsOf slot turns') := fun slot hslot =>
    (hsteady slot ((hsurvive slot).mp hslot)).congr (hsame slot ((hsurvive slot).mp hslot))
  by_cases hnone : ∀ slot, m.Survives d slot → turnsOf slot turns = []
  · rw [h.none_iff.mpr hnone, h'.none_iff]
    intro slot hslot
    have hslot := (hsurvive slot).mp hslot
    refine eq_nil_iff_forall_not_mem.mpr fun e he => ?_
    rw [hsame slot hslot, hnone slot hslot] at he
    exact absurd he not_mem_nil
  · push Not at hnone
    obtain ⟨slot, hslot, hne⟩ := hnone
    obtain ⟨frontier, hgreatest⟩ := exists_frontier hslot hne
    ext frame
    rw [h.reachableFrame_iff hsteady hgreatest, h'.reachableFrame_iff hsteady' (hseqs ▸ hgreatest), hbounds, hframes]

/-- A leave is clamped to one frame past its record's ceiling. -/
theorem commitLeave_applyAtFrame_le {m m' : DecisionMaker} {slot : SlotId} {record : Departure} {reason ceiling : Nat}
    {directive : LeaveDirective} (hrecord : m.departures.get? slot = some record) (hlast : record.lastFrame.isSome)
    (hceiling : record.reachableFrame = some ceiling) (hcommit : m.commitLeave slot reason = (m', some directive)) :
    directive.applyAtFrame ≤ ceiling + 1 := by
  obtain ⟨last, hlast⟩ := Option.isSome_iff_exists.mp hlast
  have happly : ∀ count, m.applyFrame slot count = some (saturatingAdd u32Max (min last ceiling) 1) := by
    intro count
    unfold applyFrame
    rw [hrecord]
    simp only [Option.bind_some, hlast, hceiling, leaveBaseFrame]
    rfl
  unfold commitLeave at hcommit
  rw [happly] at hcommit
  split at hcommit
  · cases hcommit
  · cases hcommit
    show saturatingAdd u32Max (min last ceiling) 1 ≤ ceiling + 1
    unfold saturatingAdd
    omega

/-- **The survivors alone bound the frame a leave applies at.** Whatever the departing slot sends and in
    whatever order the turns arrive, the ceiling is the least frame that the survivors have stamped by
    the threshold, the newest turn of any of them less the largest buffer; there is none exactly when no
    survivor has framed a turn. It is the same for every run in which the survivors have framed the same
    turns, and a leave committed under it applies at most one frame past it. -/
theorem leave_bounded_by_survivors {m m' : DecisionMaker} {d : SlotId} {turns : List FramedTurn}
    (hstart : ∀ slot, slot ≠ d → m.history slot = []) (hrun : Trace.Steps (FrameStep d) m turns m')
    (hsteady : ∀ slot, m.Survives d slot → Steady (turnsOf slot turns)) :
    (∀ frontier, IsGreatest (m.survivorSeqs d turns) frontier → ∀ frame,
      m'.reachableFrame d = some frame ↔ IsLeast (m.survivorFrames d turns (frontier - m.bounds.max)) frame) ∧
    (m'.reachableFrame d = none ↔ ∀ slot, m.Survives d slot → turnsOf slot turns = []) ∧
    (∀ n n' turns', n.bounds.max = m.bounds.max → (∀ slot, n.Survives d slot ↔ m.Survives d slot) →
      (∀ slot, slot ≠ d → n.history slot = []) → Trace.Steps (FrameStep d) n turns' n' →
      (∀ slot, m.Survives d slot → ∀ e, e ∈ turnsOf slot turns' ↔ e ∈ turnsOf slot turns) →
        n'.reachableFrame d = m'.reachableFrame d) ∧
    (∀ ceiling, m'.reachableFrame d = some ceiling → ∀ (k k' : DecisionMaker) (record : Departure) reason directive,
      k.departures.get? d = some record → record.lastFrame.isSome → record.reachableFrame = some ceiling →
        k.commitLeave d reason = (k', some directive) → directive.applyAtFrame ≤ ceiling + 1) := by
  have hkept := framesKept_run hstart hrun
  refine ⟨fun frontier hgreatest => hkept.reachableFrame_iff hsteady hgreatest, hkept.none_iff, ?_, ?_⟩
  · intro n n' turns' hbounds hsurvive hstart' hrun' hsame
    exact hkept.reachableFrame_eq (framesKept_run hstart' hrun') hsteady hbounds hsurvive hsame
  · intro ceiling _ k k' record reason directive hrecord hlast hceiling hcommit
    exact commitLeave_applyAtFrame_le hrecord hlast hceiling hcommit

/-- The departing slot frames its one turn far ahead, and a survivor's two turns arrive out of order. -/
def inflatedTurns : List FramedTurn := [⟨3, 0, 4000000000⟩, ⟨1, 8, 12⟩, ⟨1, 7, 10⟩]

/-- The maker that has observed them, with buffers of up to one turn. -/
def inflatedMaker : DecisionMaker := inflatedTurns.foldl
    (fun m t => (m.observeTurnFrame t.slot t.seq t.frame).1) (new ⟨1, 1⟩ .selfRelay ∅)

theorem leave_bounded_by_survivors_example :
    inflatedMaker.reachableFrame 3 = some 10 ∧
      IsLeast ((new ⟨1, 1⟩ .selfRelay ∅).survivorFrames 3 inflatedTurns (8 - 1)) 10 := by
  have hturns : ∀ slot, slot ≠ 3 → ∀ e, e ∈ turnsOf slot inflatedTurns ↔ slot = 1 ∧ (e = (8, 12) ∨ e = (7, 10)) := by
    intro slot hne e
    rw [mem_turnsOf, Prod.ext_iff, Prod.ext_iff]
    simp [inflatedTurns, hne]
    tauto
  have hstart : ∀ slot, slot ≠ (3 : SlotId) → (new ⟨1, 1⟩ .selfRelay ∅).history slot = [] := fun _ _ => rfl
  have hrun : Trace.Steps (FrameStep 3) (new ⟨1, 1⟩ .selfRelay ∅) inflatedTurns inflatedMaker :=
    .head (FrameStep.observe ⟨3, 0, 4000000000⟩)
      (.head (FrameStep.observe ⟨1, 8, 12⟩) (.head (FrameStep.observe ⟨1, 7, 10⟩) (.refl _)))
  have hsteady : ∀ slot, (new ⟨1, 1⟩ .selfRelay ∅).Survives 3 slot → Steady (turnsOf slot inflatedTurns) := by
    intro slot hslot
    constructor
    · intro a ha b hb seq hle hge
      obtain ⟨hone, ha⟩ := (hturns slot hslot.1 a).mp ha
      obtain ⟨-, hb⟩ := (hturns slot hslot.1 b).mp hb
      obtain rfl | rfl : seq = 8 ∨ seq = 7 := by
        rcases ha with rfl | rfl <;> rcases hb with rfl | rfl <;> dsimp only at hle hge <;> omega
      · exact ⟨(8, 12), (hturns slot hslot.1 _).mpr ⟨hone, .inl rfl⟩, rfl⟩
      · exact ⟨(7, 10), (hturns slot hslot.1 _).mpr ⟨hone, .inr rfl⟩, rfl⟩
    · intro a ha b hb hle
      obtain ⟨-, ha⟩ := (hturns slot hslot.1 a).mp ha
      obtain ⟨-, hb⟩ := (hturns slot hslot.1 b).mp hb
      rcases ha with rfl | rfl <;> rcases hb with rfl | rfl <;> dsimp only at hle ⊢ <;> omega
  have hgreatest : IsGreatest ((new ⟨1, 1⟩ .selfRelay ∅).survivorSeqs 3 inflatedTurns) 8 := by
    constructor
    · exact ⟨1, ⟨by decide, rfl⟩, by decide⟩
    · rintro seq ⟨slot, hslot, hseq⟩
      obtain ⟨e, he, rfl⟩ := mem_map.mp hseq
      obtain ⟨-, rfl | rfl⟩ := (hturns slot hslot.1 e).mp he <;> decide
  have hceiling : inflatedMaker.reachableFrame 3 = some 10 := by decide
  exact ⟨hceiling, ((leave_bounded_by_survivors hstart hrun hsteady).1 8 hgreatest 10).mp hceiling⟩

end DecisionMaker

end RallyPoint.Relay
