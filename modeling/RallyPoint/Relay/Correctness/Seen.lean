import RallyPoint.Lib.Trace
import RallyPoint.Relay.Seen

/-!
# `Relay.Correctness.Seen` — the forward gate lets each turn through once

The abstract gate of one slot is the set `M` of seqs it has let through as new. `SlotSeen.Keeps M` ties
the stored prefix, sparse set and collapse flag to that set: everything sparse was let through,
everything let through is stored, the prefix top was let through, and the prefix is **exact** until it is
collapsed, after which a seq below its top is missing for good. Every reader of the gate is then a fact
about `M`.
-/

namespace RallyPoint.Relay

open Lib Option PrefixSet Finset SlotSeen MeshSeen

/-! ## One slot -/

namespace SlotSeen

/-- The seq right above the prefix. -/
def base (s : SlotSeen) : Nat := s.seqs.base

/-- What ties a slot's gate to the set `M` of seqs it let through, the bound of the sparse set apart. -/
structure Keeps (M : Set Nat) (s : SlotSeen) : Prop where
  canonical : s.seqs.Canonical
  within : s.seqs.Within u64Max
  sparse : ∀ n ∈ s.ahead, n ∈ M
  stored : M ⊆ s.seqs.mem
  top : ∀ t, s.forwardedThrough = some t → t ∈ M
  exact : s.prefixCollapsed = false → s.seqs.mem ⊆ M
  gap : s.prefixCollapsed = true → ∃ n < s.base, n ∉ M

variable {M : Set Nat} {s : SlotSeen} {seq : Nat}

theorem pristine_keeps : pristine.Keeps ∅ := by
  refine ⟨empty_canonical, empty_within _, ?_, Set.empty_subset _, ?_, ?_, ?_⟩
  · intro n hn; cases hn
  · intro t ht; cases ht
  · intro _ n hn; exact absurd hn (empty_mem ▸ id)
  · intro h; cases h

theorem any_le_iff : (s.forwardedThrough.any (seq ≤ ·)) = true ↔ seq < s.base := top_any_iff (s := s.seqs)

theorem nextBase_eq (hseq : seq ≤ u64Max) (hlow : s.base ≤ seq) : s.nextBase = some s.base := by
  rw [base, ← checkedBase_eq (s := s.seqs) hseq hlow]
  unfold nextBase seqs
  cases s.forwardedThrough <;> rfl

@[simp] theorem absorb_seqs (s : SlotSeen) : s.absorbContiguousRun.seqs = s.seqs.absorb u64Max := rfl

@[simp] theorem absorb_collapsed (s : SlotSeen) : s.absorbContiguousRun.prefixCollapsed = s.prefixCollapsed := rfl

/-- Absorbing keeps the tie: the stored set stays, and the new top is the old one or from the sparse set. -/
theorem Keeps.absorb (hlow : ∀ n ∈ s.ahead, s.base ≤ n) (hin : s.seqs.Within u64Max)
    (hsparse : ∀ n ∈ s.ahead, n ∈ M) (hstored : M ⊆ s.seqs.mem)
    (htop : ∀ t, s.forwardedThrough = some t → t ∈ M)
    (hexact : s.prefixCollapsed = false → s.seqs.mem ⊆ M)
    (hgap : s.prefixCollapsed = true → ∃ n < s.base, n ∉ M) : s.absorbContiguousRun.Keeps M := by
  have hmem : s.absorbContiguousRun.seqs.mem = s.seqs.mem := absorb_mem hlow hin
  have hsub := absorb_ahead_subset u64Max s.seqs
  refine ⟨absorb_canonical hlow hin, absorb_within hlow hin, ?_, ?_, ?_, ?_, ?_⟩
  · intro n hn
    exact hsparse n (hsub hn)
  · rw [hmem]; exact hstored
  · intro t ht
    obtain h | ⟨t', ht', h⟩ := absorb_top u64Max s.seqs
    · exact htop t (h.symm.trans ht)
    · have heq : t' = t := some.inj (h.symm.trans ht)
      exact heq ▸ hsparse t' ht'
  · intro hc
    rw [hmem]
    exact hexact hc
  · intro hc
    obtain ⟨n, hn, hM⟩ := hgap hc
    refine ⟨n, ?_, hM⟩
    -- `n` is still stored, and not sparse, so it is below the new base
    have hstill : n ∈ s.absorbContiguousRun.seqs.mem := by
      rw [hmem]; exact Or.inl hn
    obtain h | h := hstill
    · exact h
    · exact absurd (hsparse n (hsub h)) hM

/-- Delivering the base. -/
theorem Keeps.inOrder (h : s.Keeps M) (hb : s.base ≤ u64Max) :
    (absorbContiguousRun { s with forwardedThrough := some s.base }).Keeps (insert s.base M) := by
  have hmem : (seqs { s with forwardedThrough := some s.base }).mem = insert s.base s.seqs.mem := mem_advance s.seqs
  refine Keeps.absorb (advance_low h.canonical) (advance_within h.within hb) ?_ ?_ ?_ ?_ ?_
  · intro n hn
    exact .inr (h.sparse n hn)
  · rw [hmem]
    exact Set.insert_subset_insert h.stored
  · intro t ht
    exact .inl (some.inj ht).symm
  · intro hc
    rw [hmem]
    exact Set.insert_subset_insert (h.exact hc)
  · intro hc
    obtain ⟨n, hn, hM⟩ := h.gap hc
    refine ⟨n, Nat.lt_succ_of_lt hn, ?_⟩
    rintro (rfl | hm)
    · exact absurd hn (lt_irrefl _)
    · exact hM hm

/-- A seq above the base goes into the sparse set. -/
theorem Keeps.put (h : s.Keeps M) (hb : s.base < seq) (hseq : seq ≤ u64Max) :
    Keeps (insert seq M) { s with ahead := insert seq s.ahead } := by
  have hmem : (seqs { s with ahead := insert seq s.ahead }).mem = insert seq s.seqs.mem := mem_put seq s.seqs
  refine ⟨put_canonical h.canonical hb, put_within h.within hseq, ?_, ?_, ?_, ?_, ?_⟩
  · intro n hn
    obtain rfl | hn := mem_insert.mp hn
    · exact .inl rfl
    · exact .inr (h.sparse n hn)
  · rw [hmem]
    exact Set.insert_subset_insert h.stored
  · intro t ht
    exact .inr (h.top t ht)
  · intro hc
    rw [hmem]
    exact Set.insert_subset_insert (h.exact hc)
  · intro hc
    obtain ⟨n, hn, hM⟩ := h.gap hc
    refine ⟨n, hn, ?_⟩
    rintro (rfl | hm)
    · exact absurd hn (not_lt.mpr (le_of_lt hb))
    · exact hM hm

/-- Taking out the lowest sparse seq is keeping the ones above it. -/
theorem erase_lowest {a : Finset Nat} (hne : a.Nonempty) : a.erase (a.min' hne) = a.filter (a.min' hne < ·) := by
  ext n
  rw [mem_erase, mem_filter]
  constructor
  · rintro ⟨hn, hm⟩
    exact ⟨hm, lt_of_le_of_ne (min'_le _ _ hm) (Ne.symm hn)⟩
  · rintro ⟨hm, hn⟩
    exact ⟨ne_of_gt hn, hm⟩

/-- One round of the collapse: the prefix jumps to the lowest sparse seq, over one that was never let
    through. -/
theorem Keeps.collapseRound (h : s.Keeps M) (hne : s.ahead.Nonempty) :
    (absorbContiguousRun ⟨some (s.ahead.min' hne), s.ahead.erase (s.ahead.min' hne), true⟩).Keeps M ∧
      (absorbContiguousRun ⟨some (s.ahead.min' hne), s.ahead.erase (s.ahead.min' hne), true⟩).seqs.mem =
        {n | n ≤ s.ahead.min' hne} ∪ s.seqs.mem := by
  rw [erase_lowest]
  set lowest := s.ahead.min' hne with hlow
  have hmin : lowest ∈ s.ahead := min'_mem _ hne
  have hbase : s.base < lowest := h.canonical lowest hmin
  have hmax : lowest ≤ u64Max := h.within lowest (.inr hmin)
  have hle : s.seqs.base ≤ lowest + 1 := le_trans (le_of_lt hbase) (Nat.le_succ _)
  have hwithin := raise_within h.within hle hmax
  have hmem := mem_raise hle
  refine ⟨Keeps.absorb (raise_low s.seqs lowest) hwithin ?_ ?_ ?_ ?_ ?_, ?_⟩
  · intro n hn
    exact h.sparse n (mem_of_mem_filter n hn)
  · show M ⊆ (s.seqs.raise lowest).mem
    rw [hmem]
    exact fun n hn => .inr (h.stored hn)
  · intro t ht
    exact some.inj ht ▸ h.sparse lowest hmin
  · intro hc; cases hc
  · intro _
    refine ⟨s.base, Nat.lt_succ_of_lt hbase, ?_⟩
    exact fun hM => base_not_mem h.canonical (h.stored hM)
  · rw [← hmem]
    exact absorb_mem (raise_low s.seqs lowest) hwithin

/-- The collapse keeps the tie, brings the sparse set under its bound, and never clears the flag. -/
theorem Keeps.collapseLoop : ∀ (fuel : Nat) {s : SlotSeen}, s.Keeps M → s.ahead.card ≤ fuel →
    (collapseLoop fuel s).Keeps M ∧ (collapseLoop fuel s).ahead.card ≤ sparseSeenCap ∧
      ((collapseLoop fuel s).prefixCollapsed = false → collapseLoop fuel s = s) := by
  intro fuel
  induction fuel with
  | zero =>
    intro s h hcard
    exact ⟨h, le_trans hcard (Nat.zero_le _), fun _ => rfl⟩
  | succ fuel ih =>
    intro s h hcard
    unfold SlotSeen.collapseLoop
    by_cases hover : sparseSeenCap < s.ahead.card
    · rw [dif_pos hover]
      have hne : s.ahead.Nonempty := card_pos.mp (Nat.zero_lt_of_lt hover)
      set round := absorbContiguousRun ⟨some (s.ahead.min' hne), s.ahead.erase (s.ahead.min' hne), true⟩ with hround
      have hfewer : round.ahead.card ≤ fuel := by
        have h₁ : round.ahead.card ≤ (s.ahead.erase (s.ahead.min' hne)).card := card_le_card (absorb_ahead_subset u64Max _)
        have h₂ := card_erase_of_mem (min'_mem _ hne)
        omega
      obtain ⟨hk, hcap, hflag⟩ := ih (h.collapseRound hne).1 hfewer
      refine ⟨hk, hcap, ?_⟩
      -- a round sets the flag, and no later round clears it
      intro hc
      have hsame := hflag hc
      rw [hsame] at hc
      cases hc
    · rw [dif_neg hover]
      exact ⟨h, not_lt.mp hover, fun _ => rfl⟩

/-- What the collapse stores in addition lies below as many sparse seqs as the bound allows. -/
theorem Keeps.collapseLoop_mem : ∀ (fuel : Nat)
    {s : SlotSeen}, s.Keeps M → s.seqs.mem ⊆ (SlotSeen.collapseLoop fuel s).seqs.mem ∧
      ∀ n ∈ (SlotSeen.collapseLoop fuel s).seqs.mem, n ∈ s.seqs.mem ∨
        ∃ above ⊆ s.ahead, sparseSeenCap ≤ above.card ∧ ∀ a ∈ above, n < a := by
  intro fuel
  induction fuel with
  | zero => exact fun _ => ⟨subset_rfl, fun n hn => .inl hn⟩
  | succ fuel ih =>
    intro s h
    unfold SlotSeen.collapseLoop
    by_cases hover : sparseSeenCap < s.ahead.card
    · rw [dif_pos hover]
      have hne : s.ahead.Nonempty := card_pos.mp (Nat.zero_lt_of_lt hover)
      obtain ⟨hround, hmem⟩ := h.collapseRound hne
      obtain ⟨hsub, hnew⟩ := ih hround
      rw [hmem] at hsub
      refine ⟨fun n hn => hsub (.inr hn), ?_⟩
      intro n hn
      obtain hn | ⟨above, habove, hcard, hlt⟩ := hnew n hn
      · rw [hmem] at hn
        obtain hlow | hn := hn
        · -- this round swallowed it: all but the lowest sparse seq are above
          refine .inr ⟨s.ahead.erase (s.ahead.min' hne), erase_subset _ _, ?_, ?_⟩
          · rw [card_erase_of_mem (min'_mem _ hne)]
            exact Nat.le_sub_one_of_lt hover
          · intro a ha
            rw [erase_lowest] at ha
            exact lt_of_le_of_lt hlow (mem_filter.mp ha).2
        · exact .inl hn
      · -- a later round did, and its sparse seqs are among these
        have hrest := absorb_ahead_subset u64Max
          (⟨some (s.ahead.min' hne), s.ahead.erase (s.ahead.min' hne), true⟩ : SlotSeen).seqs
        exact .inr ⟨above, habove.trans (hrest.trans (erase_subset _ _)), hcard, hlt⟩
    · rw [dif_neg hover]
      exact ⟨subset_rfl, fun n hn => .inl hn⟩

/-- A seq above the base touches no prefix: it goes into the sparse set, and the collapse follows. -/
theorem Keeps.putAhead_eq (h : s.Keeps M) (hb : s.base < seq) (hseq : seq ≤ u64Max) :
    s.putAhead seq = ((collapseToCap { s with ahead := insert seq s.ahead }),
      ⟨.new, false, (collapseToCap { s with ahead := insert seq s.ahead }).forwardedCount⟩) := by
  have hfix : absorbContiguousRun { s with ahead := insert seq s.ahead } = { s with ahead := insert seq s.ahead } := by
    have hself : (seqs { s with ahead := insert seq s.ahead }).absorb u64Max = _ := absorb_eq_self (h.put hb hseq).canonical
    unfold absorbContiguousRun
    rw [hself]
    rfl
  unfold putAhead
  simp [hfix]

/-- How a call on one slot ends. -/
inductive Marked (M : Set Nat) (s s' : SlotSeen) (seq : Nat) : Forwarded → Set Nat → Prop
  | duplicate {f : Forwarded} : f = .duplicate → (seq ∈ M ∨ seq < s.base) → s' = s → Marked M s s' seq f M
  | inOrder {f : Forwarded} : f.seen = .new → seq ∉ M → seq = s.base → s' = absorbContiguousRun
      { s with forwardedThrough := some s.base } →
      f.prefixAdvanced = !s'.prefixCollapsed → Marked M s s' seq f (insert seq M)
  | sparse {f : Forwarded} : f.seen = .new → seq ∉ M → s.base < seq →
      (s'.prefixCollapsed = false → s' = { s with ahead := insert seq s.ahead }) →
      f.prefixAdvanced = false → Marked M s s' seq f (insert seq M)

/-- **Marking a seq on one slot** keeps the tie and the bound, and ends in one of the three ways. -/
theorem Keeps.markForwarded (h : s.Keeps M) (hcap : s.ahead.card ≤ sparseSeenCap) (hseq : seq ≤ u64Max) :
    ∃ M', Marked M s (s.markForwarded seq).1 seq (s.markForwarded seq).2 M' ∧
      (s.markForwarded seq).1.Keeps M' ∧ (s.markForwarded seq).1.ahead.card ≤ sparseSeenCap := by
  unfold SlotSeen.markForwarded
  by_cases hlow : seq < s.base
  · rw [if_pos (any_le_iff.mpr hlow)]
    exact ⟨M, .duplicate rfl (.inr hlow) rfl, h, hcap⟩
  · have hb : s.base ≤ seq := not_lt.mp hlow
    rw [if_neg (fun hany => hlow (any_le_iff.mp hany)), nextBase_eq hseq hb]
    by_cases heq : seq = s.base
    · subst heq
      have hnot : s.base ∉ M := fun hM => base_not_mem h.canonical (h.stored hM)
      simp only [if_true]
      refine ⟨_, .inOrder rfl hnot rfl rfl rfl, h.inOrder hseq, ?_⟩
      exact le_trans (card_le_card (absorb_ahead_subset u64Max _)) hcap
    · simp only [heq, if_false]
      by_cases hmem : seq ∈ s.ahead
      · rw [if_pos hmem]
        exact ⟨M, .duplicate rfl (.inl (h.sparse seq hmem)) rfl, h, hcap⟩
      · rw [if_neg hmem]
        have hlt : s.base < seq := lt_of_le_of_ne hb (Ne.symm heq)
        have hnot : seq ∉ M := by
          intro hM
          obtain hx | hx := h.stored hM
          · exact hlow hx
          · exact hmem hx
        obtain ⟨hk, hcard, hflag⟩ := Keeps.collapseLoop _ (h.put hlt hseq) le_rfl
        rw [h.putAhead_eq hlt hseq]
        exact ⟨_, .sparse rfl hnot hlt hflag rfl, hk, hcard⟩

/-- **What marking a seq stores**: the seq, all that was stored, and at most what a collapse swallows. -/
theorem Keeps.markForwarded_mem (h : s.Keeps M) (hseq : seq ≤ u64Max) :
    insert seq s.seqs.mem ⊆ (s.markForwarded seq).1.seqs.mem ∧ ∀ n ∈ (s.markForwarded seq).1.seqs.mem,
      n ∈ insert seq s.seqs.mem ∨
        ∃ above ⊆ insert seq s.ahead, sparseSeenCap ≤ above.card ∧ ∀ a ∈ above, n < a := by
  -- where the call changes nothing, the seq is stored already
  have hdup : seq ∈ s.seqs.mem → insert seq s.seqs.mem ⊆ s.seqs.mem := fun hin n hn => hn.elim (fun heq => heq ▸ hin) id
  unfold SlotSeen.markForwarded
  by_cases hlow : seq < s.base
  · rw [if_pos (any_le_iff.mpr hlow)]
    exact ⟨hdup (.inl hlow), fun n hn => .inl (.inr hn)⟩
  · have hb : s.base ≤ seq := not_lt.mp hlow
    rw [if_neg (fun hany => hlow (any_le_iff.mp hany)), nextBase_eq hseq hb]
    by_cases heq : seq = s.base
    · subst heq
      simp only [if_true]
      have hmem : (absorbContiguousRun { s with forwardedThrough := some s.base }).seqs.mem = insert s.base s.seqs.mem :=
        (absorb_mem (advance_low h.canonical) (advance_within h.within hseq)).trans
          (mem_advance s.seqs)
      rw [hmem]
      exact ⟨subset_rfl, fun n hn => .inl hn⟩
    · simp only [heq, if_false]
      by_cases hin : seq ∈ s.ahead
      · rw [if_pos hin]
        exact ⟨hdup (.inr hin), fun n hn => .inl (.inr hn)⟩
      · have hlt : s.base < seq := lt_of_le_of_ne hb (Ne.symm heq)
        rw [if_neg hin, h.putAhead_eq hlt hseq]
        have hput : (seqs { s with ahead := insert seq s.ahead }).mem = insert seq s.seqs.mem := mem_put seq s.seqs
        have hcollapse := Keeps.collapseLoop_mem (insert seq s.ahead).card (h.put hlt hseq)
        rw [hput] at hcollapse
        exact hcollapse

/-! ### What the readers see -/

/-- Until it is collapsed, the gate stores exactly what it let through. -/
theorem Keeps.stored_eq (h : s.Keeps M) (hc : s.prefixCollapsed = false) : s.seqs.mem = M :=
  Set.Subset.antisymm (h.exact hc) h.stored

theorem Keeps.base_notMem (h : s.Keeps M) : s.base ∉ M := fun hM => base_not_mem h.canonical (h.stored hM)

theorem Keeps.base_le (h : s.Keeps M) (ht : s.forwardedThrough ≠ some u64Max) : s.base ≤ u64Max := by
  obtain ⟨_ | t, a, c⟩ := s
  · exact Nat.zero_le _
  · have hle : t ≤ u64Max := h.within t (.inl (Nat.lt_succ_self t))
    have hne : t ≠ u64Max := fun heq => ht (by rw [heq])
    show t + 1 ≤ u64Max
    omega

variable {n : Nat}

/-- The checked successor of the prefix top is the base, if there is a prefix and the base is a `u64`. -/
theorem next_eq_some : s.forwardedThrough.bind (checkedAdd u64Max · 1) = some n ↔ 1 ≤ n ∧ n ≤ u64Max ∧ n = s.base := by
  obtain ⟨_ | t, a, c⟩ := s
  · simp [base, seqs]; omega
  · by_cases ht : t + 1 ≤ u64Max
    · simp only [bind_some, checkedAdd_of_le ht, base, seqs, base_some, some.injEq]
      omega
    · simp only [bind_some, checkedAdd, ht, if_false, base, seqs, base_some, reduceCtorEq, false_iff]
      omega

theorem Keeps.eq_base_iff (h : s.Keeps M) (hc : s.prefixCollapsed = false) : n = s.base ↔ (∀ k < n, k ∈ M) ∧ n ∉ M := by
  constructor
  · rintro rfl
    exact ⟨fun k hk => h.exact hc (.inl hk), h.base_notMem⟩
  · rintro ⟨hall, hnot⟩
    rcases lt_trichotomy n s.base with hlt | heq | hgt
    · exact absurd (h.exact hc (.inl hlt)) hnot
    · exact heq
    · exact absurd (hall s.base hgt) h.base_notMem

/-- The set let through is an initial run iff the gate is not collapsed and holds nothing sparse. -/
theorem Keeps.run_iff (h : s.Keeps M) : M = {k | k < n} ↔ s.prefixCollapsed = false ∧ s.ahead = ∅ ∧ n = s.base := by
  constructor
  · intro hM
    have hmem : ∀ k, k ∈ M ↔ k < n := fun k => by rw [hM]; rfl
    have hbase : n ≤ s.base := by
      by_contra hlt
      exact h.base_notMem ((hmem _).mpr (not_le.mp hlt))
    have hahead : s.ahead = ∅ := by
      apply eq_empty_of_forall_notMem
      intro k hk
      have h₁ : s.base < k := h.canonical k hk
      have h₂ := (hmem k).mp (h.sparse k hk)
      omega
    -- below the base everything was let through: the prefix top was, and the set is a run
    have hbelow : ∀ k < s.base, k ∈ M := by
      intro k hk
      have htop : ∃ t, s.forwardedThrough = some t ∧ k ≤ t := by
        obtain ⟨_ | t, a, c⟩ := s
        · exact absurd hk (Nat.not_lt_zero k)
        · exact ⟨t, rfl, Nat.le_of_lt_succ hk⟩
      obtain ⟨t, ht, hkt⟩ := htop
      have := (hmem t).mp (h.top t ht)
      exact (hmem k).mpr (by omega)
    refine ⟨?_, hahead, ?_⟩
    · cases hc : s.prefixCollapsed with
      | false => rfl
      | true =>
        obtain ⟨k, hk, hnot⟩ := h.gap hc
        exact absurd (hbelow k hk) hnot
    · rcases Nat.lt_or_eq_of_le hbase with hlt | heq
      · exact absurd ((hmem n).mp (hbelow n hlt)) (lt_irrefl n)
      · exact heq
  · rintro ⟨hc, ha, rfl⟩
    rw [← h.stored_eq hc]
    ext k
    rw [mem_iff]
    simp [seqs, ha, base]

/-- The greatest seq let through is the greatest sparse one, or the prefix top. -/
theorem Keeps.isGreatest (h : s.Keeps M) {k : Nat} :
    (if hne : s.ahead.Nonempty then some (s.ahead.max' hne) else s.forwardedThrough) = some k ↔ IsGreatest M k := by
  have hone : ∀ j, (if hne : s.ahead.Nonempty then some (s.ahead.max' hne) else s.forwardedThrough) =
    some j → IsGreatest M j := by
    intro j hj
    by_cases hne : s.ahead.Nonempty
    · -- everything stored is below the prefix or in the sparse set, and that lies above the prefix
      rw [dif_pos hne] at hj
      obtain rfl := some.inj hj
      have hmax := max'_mem _ hne
      refine ⟨h.sparse _ hmax, ?_⟩
      intro n hn
      obtain hlow | hin := h.stored hn
      · have : s.base < s.ahead.max' hne := h.canonical _ hmax
        exact le_of_lt (lt_trans hlow this)
      · exact le_max' _ _ hin
    · rw [dif_neg hne] at hj
      refine ⟨h.top j hj, ?_⟩
      intro n hn
      have ha : s.ahead = ∅ := not_nonempty_iff_eq_empty.mp hne
      obtain hlow | hin := h.stored hn
      · have hb : s.seqs.base = j + 1 := by simp [seqs, hj]
        omega
      · exact absurd hin (by simp [seqs, ha])
  constructor
  · exact hone k
  · intro hk
    by_cases hne : s.ahead.Nonempty
    · rw [dif_pos hne] at hone ⊢
      rw [IsGreatest.unique hk (hone _ rfl)]
    · rw [dif_neg hne] at hone ⊢
      cases ht : s.forwardedThrough with
      | some t => rw [IsGreatest.unique hk (hone t ht)]
      | none =>
        have ha : s.ahead = ∅ := not_nonempty_iff_eq_empty.mp hne
        have := h.stored hk.1
        simp [seqs, ht, ha] at this

end SlotSeen

/-! ## The whole gate -/

namespace MeshSeen

variable {m : MeshSeen} {slot slot' : SlotId} {seq : Nat}

theorem markForwarded_entry_self : (m.markForwarded slot seq).1.entry slot = ((m.entry slot).markForwarded seq).1 := by
  simp [markForwarded, entry]

theorem markForwarded_entry_of_ne (h : slot' ≠ slot) : (m.markForwarded slot seq).1.entry slot' = m.entry slot' := by
  simp [markForwarded, entry, Function.update_of_ne h]

end MeshSeen

/-- One call of `mark_forwarded`. -/
def MeshSeen.step (m : MeshSeen) (call : SlotId × U64) : MeshSeen × Forwarded := m.markForwarded call.1 call.2

/-- A log of calls with their results. -/
abbrev GateLog := List ((SlotId × U64) × Forwarded)

/-- The seqs of `slot` that were let through as new. -/
def letThrough (log : GateLog) (slot : SlotId) : Set Nat :=
  {n | ∃ e ∈ log, e.2.seen = .new ∧ e.1.1 = slot ∧ (e.1.2 : Nat) = n}

/-- No two entries of the log let the same `(slot, seq)` through. -/
def OnceEach (log : GateLog) : Prop := log.Pairwise fun a b => a.2.seen = .new → b.2.seen = .new → a.1 ≠ b.1

theorem letThrough_concat (log : GateLog) (c : SlotId × U64) (f : Forwarded) (slot : SlotId) :
    letThrough (log ++ [(c, f)]) slot = letThrough log slot ∪ {n | f.seen = .new ∧ c.1 = slot ∧ (c.2 : Nat) = n} := by
  ext n
  simp only [letThrough, List.mem_append, List.mem_singleton, Set.mem_union, Set.mem_ofPred_eq]
  constructor
  · rintro ⟨e, he | rfl, h⟩
    · exact .inl ⟨e, he, h⟩
    · exact .inr h
  · rintro (⟨e, he, h⟩ | h)
    · exact ⟨e, .inl he, h⟩
    · exact ⟨(c, f), .inr rfl, h⟩

/-- **The gate against its log.** Every slot's state is tied to what was let through for it, stays under the
    bound, and exists only once something was let through; nothing was let through twice. -/
structure Gate (m : MeshSeen) (log : GateLog) : Prop where
  keeps : ∀ slot, (m.entry slot).Keeps (letThrough log slot)
  capped : ∀ slot, (m.entry slot).ahead.card ≤ sparseSeenCap
  entry : ∀ slot, m.slots slot ≠ none → (letThrough log slot).Nonempty
  once : OnceEach log

namespace Gate

variable {m : MeshSeen} {log : GateLog} {slot : SlotId}

theorem init : Gate .new [] := by
  have hempty : ∀ slot, letThrough [] slot = ∅ := by
    intro slot; ext n; simp [letThrough]
  refine ⟨?_, fun _ => Nat.zero_le _, fun _ h => absurd rfl h, .nil⟩
  intro slot
  rw [hempty]
  exact pristine_keeps

/-- The set a call leaves behind is what the extended log lets through. -/
theorem marked_letThrough {s s' : SlotSeen} {seq : U64} {f : Forwarded} {M' : Set Nat}
    (h : SlotSeen.Marked (letThrough log slot) s s' seq f M') : M' = letThrough (log ++ [((slot, seq), f)]) slot := by
  rw [letThrough_concat]
  have hnew : ∀ g : Forwarded, g.seen = .new → insert (seq : Nat) (letThrough log slot) =
      letThrough log slot ∪ {n | g.seen = .new ∧ slot = slot ∧ (seq : Nat) = n} := by
    intro g hg
    rw [← Set.union_singleton]
    congr 1
    ext n
    simp [hg, eq_comm]
  cases h with
  | duplicate hf _ _ => ext n; simp [hf, Forwarded.duplicate]
  | inOrder hf | sparse hf => exact hnew f hf

/-- **One call keeps the gate.** -/
theorem step (h : Gate m log) (c : SlotId × U64) : Gate (m.step c).1 (log ++ [(c, (m.step c).2)]) := by
  obtain ⟨slot, seq⟩ := c
  obtain ⟨M', hmarked, hkeeps, hcap⟩ := (h.keeps slot).markForwarded (h.capped slot) (U64.le_max seq)
  have hM' := marked_letThrough hmarked
  have hself : ((m.step (slot, seq)).1).entry slot = ((m.entry slot).markForwarded seq).1 := markForwarded_entry_self
  have hother : ∀ slot' ≠ slot, (m.step (slot, seq)).1.slots slot' = m.slots slot' := by
    intro slot' hne
    exact Function.update_of_ne hne ..
  have hsets : ∀ slot' ≠ slot, ∀ f, letThrough (log ++ [((slot, seq), f)]) slot' = letThrough log slot' := by
    intro slot' hne f
    rw [letThrough_concat]
    ext n
    simp [Ne.symm hne]
  refine ⟨?_, ?_, ?_, ?_⟩
  · intro slot'
    by_cases hs : slot' = slot
    · subst hs
      rw [hself]
      exact hM' ▸ hkeeps
    · rw [hsets slot' hs]
      unfold MeshSeen.entry
      rw [hother slot' hs]
      exact h.keeps slot'
  · intro slot'
    by_cases hs : slot' = slot
    · subst hs
      rw [hself]
      exact hcap
    · unfold MeshSeen.entry
      rw [hother slot' hs]
      exact h.capped slot'
  · intro slot' hsome
    by_cases hs : slot' = slot
    · subst hs
      show (letThrough (log ++ [((slot', seq), ((m.entry slot').markForwarded seq).2)]) slot').Nonempty
      rw [← hM']
      cases hmarked with
      | inOrder _ | sparse _ => exact ⟨_, .inl rfl⟩
      | duplicate _ hdup _ =>
        -- a duplicate needs an earlier turn of the slot
        obtain hM | hlow := hdup
        · exact ⟨_, hM⟩
        · cases hslot : m.slots slot' with
          | none =>
            have hzero : (m.entry slot').base = 0 := by simp [MeshSeen.entry, hslot]; rfl
            omega
          | some s => exact h.entry slot' (by simp [hslot])
    · rw [hsets slot' hs]
      rw [hother slot' hs] at hsome
      exact h.entry slot' hsome
  · refine List.pairwise_append.mpr ⟨h.once, List.pairwise_singleton _ _, ?_⟩
    intro a ha b hb hanew hbnew
    obtain rfl := List.mem_singleton.mp hb
    intro heq
    have hin : (seq : Nat) ∈ letThrough log slot := ⟨a, ha, hanew, by rw [heq], by rw [heq]⟩
    have hnew : ((m.entry slot).markForwarded seq).2.seen = .new := hbnew
    cases hmarked with
    | duplicate hf _ _ => rw [hf] at hnew; cases hnew
    | inOrder _ hnot | sparse _ hnot => exact hnot hin

/-- **Every run keeps the gate.** -/
theorem run (calls : List (SlotId × U64)) : Gate (Trace.run MeshSeen.step .new calls).1
    (Trace.run MeshSeen.step .new calls).2 :=
  Trace.run_invariant calls init fun _ _ c _ h => h.step c

end Gate

/-! ## The readers -/

section Readers

variable {κ : Type} [DecidableEq κ] (registries : SeenRegistries κ) (key : κ) {m : MeshSeen} {log : GateLog} (slot : SlotId)

/-- The registries with `m` as the session's gate. -/
def holding (registries : SeenRegistries κ) (key : κ) (m : MeshSeen) : SeenRegistries κ :=
  Function.update registries key (some m)

theorem slotSeen_holding : slotSeen (holding registries key m) key slot = m.slots slot := by
  simp [slotSeen, holding]

theorem forwardedCount_holding : forwardedCount (holding registries key m) key slot = if
    (m.entry slot).prefixCollapsed then none
    else (m.entry slot).forwardedThrough.bind (checkedAdd u64Max · 1) := by
  unfold forwardedCount MeshSeen.entry
  rw [slotSeen_holding]
  cases m.slots slot <;> rfl

variable {slot}

theorem Gate.forwardedCount_iff (h : Gate m log) (hc : (m.entry slot).prefixCollapsed = false) (n : U64) :
    forwardedCount (holding registries key m) key slot = some (n : Nat) ↔
      1 ≤ (n : Nat) ∧ (∀ k < (n : Nat), k ∈ letThrough log slot) ∧ (n : Nat) ∉ letThrough log slot := by
  rw [forwardedCount_holding, hc, if_neg Bool.false_ne_true, next_eq_some, ← (h.keeps slot).eq_base_iff hc]
  have := U64.le_max n
  tauto

theorem Gate.forwardGateReading_count_iff (h : Gate m log) (n : U64) :
    forwardGateReading (holding registries key m) key slot = .count n ↔ 1 ≤ (n : Nat) ∧
      letThrough log slot = {k | k < (n : Nat)} := by
  have hkeeps := h.keeps slot
  rw [hkeeps.run_iff]
  unfold forwardGateReading
  rw [slotSeen_holding]
  unfold MeshSeen.entry at hkeeps ⊢
  cases hslot : m.slots slot with
  | none =>
    simp only [getD_none, reduceCtorEq, false_iff]
    rintro ⟨hn, -, -, hb⟩
    have : pristine.base = 0 := rfl
    omega
  | some s =>
    simp only [getD_some]
    by_cases hbad : s.prefixCollapsed = true ∨ s.ahead ≠ ∅
    · rw [if_pos hbad]
      simp only [reduceCtorEq, false_iff]
      rintro ⟨-, hc, ha, -⟩
      rcases hbad with h₁ | h₁
      · rw [hc] at h₁; cases h₁
      · exact h₁ ha
    · rw [if_neg hbad]
      have hc : s.prefixCollapsed = false := by
        cases hcc : s.prefixCollapsed
        · rfl
        · exact absurd (.inl hcc) hbad
      have ha : s.ahead = ∅ := by
        by_contra hne
        exact hbad (.inr hne)
      have hiff := next_eq_some (s := s) (n := (n : Nat))
      have hmax := U64.le_max n
      -- the count is the prefix top's successor, which may not fit
      cases hnext : s.forwardedThrough.bind (checkedAdd u64Max · 1) with
      | none =>
        rw [hnext] at hiff
        simp only [reduceCtorEq, false_iff] at hiff ⊢
        tauto
      | some k =>
        rw [hnext] at hiff
        simp only [some.injEq] at hiff
        simp only [ForwardGateReading.count.injEq]
        tauto

theorem Gate.forwardGateReading_never_iff (h : Gate m log) :
    forwardGateReading (holding registries key m) key slot = .neverForwarded ↔ letThrough log slot = ∅ := by
  have hstored := (h.keeps slot).stored
  have hentry := h.entry slot
  unfold forwardGateReading
  rw [slotSeen_holding]
  cases hslot : m.slots slot with
  | none =>
    have hempty : letThrough log slot = ∅ := by
      apply Set.subset_empty_iff.mp
      unfold MeshSeen.entry at hstored
      rw [hslot] at hstored
      exact hstored.trans (Set.subset_empty_iff.mpr empty_mem)
    simp [hempty]
  | some s =>
    have hne : letThrough log slot ≠ ∅ := (hentry (by simp [hslot])).ne_empty
    simp only [hne, iff_false]
    split
    · simp
    · split <;> simp

theorem Gate.highestForwardedSeq_iff (h : Gate m log) {n : Nat} :
    highestForwardedSeq (holding registries key m) key slot = some n ↔ IsGreatest (letThrough log slot) n := by
  rw [← (h.keeps slot).isGreatest]
  unfold highestForwardedSeq MeshSeen.entry
  rw [slotSeen_holding]
  cases m.slots slot with
  | none => simp [pristine]
  | some s => rfl

theorem forwardedCount_getD (hc : (m.entry slot).prefixCollapsed = false) (hmax : (m.entry slot).base ≤ u64Max) :
    (forwardedCount (holding registries key m) key slot).getD 0 = (m.entry slot).base := by
  rw [forwardedCount_holding, hc, if_neg Bool.false_ne_true]
  by_cases h1 : 1 ≤ (m.entry slot).base
  · rw [next_eq_some.mpr ⟨h1, hmax, rfl⟩]; rfl
  · have hz : (m.entry slot).base = 0 := by omega
    have hnone : (m.entry slot).forwardedThrough = none := base_eq_zero.mp hz
    rw [hnone, hz]; rfl

/-- A call is new exactly when its seq was not let through and is not at or below the prefix top. -/
theorem Gate.new_iff (h : Gate m log) (seq : U64) : (m.markForwarded slot seq).2.seen = .new ↔
    (seq : Nat) ∉ letThrough log slot ∧ ¬ (m.entry slot).forwardedThrough.any ((seq : Nat) ≤ ·) := by
  obtain ⟨M', hmarked, -, -⟩ := (h.keeps slot).markForwarded (h.capped slot) (U64.le_max seq)
  show ((m.entry slot).markForwarded seq).2.seen = .new ↔ _
  rw [any_le_iff]
  cases hmarked with
  | duplicate hf hdup _ =>
    rw [hf]
    simp only [Forwarded.duplicate, reduceCtorEq, false_iff]
    tauto
  | inOrder hf hnot _ _ | sparse hf hnot _ _ => exact ⟨fun _ => ⟨hnot, by omega⟩, fun _ => hf⟩

/-- A new turn reports progress exactly when the count of forwarded turns grew, in a slot that is not
    collapsed and below the ceiling. -/
theorem Gate.prefixAdvanced_iff (h : Gate m log) (seq : U64)
    (hc : ((m.markForwarded slot seq).1.entry slot).prefixCollapsed = false)
    (htop : ((m.markForwarded slot seq).1.entry slot).forwardedThrough ≠ some u64Max)
    (hnew : (m.markForwarded slot seq).2.seen = .new) :
    (m.markForwarded slot seq).2.prefixAdvanced = true ↔ (forwardedCount (holding registries key m) key slot).getD 0 <
        (forwardedCount (holding registries key (m.markForwarded slot seq).1) key slot).getD 0 := by
  obtain ⟨M', hmarked, hkeeps, -⟩ := (h.keeps slot).markForwarded (h.capped slot) (U64.le_max seq)
  have hself : (m.markForwarded slot seq).1.entry slot = ((m.entry slot).markForwarded seq).1 := markForwarded_entry_self
  have hf : (m.markForwarded slot seq).2 = ((m.entry slot).markForwarded seq).2 := rfl
  have hle' : ((m.markForwarded slot seq).1.entry slot).base ≤ u64Max := by
    rw [hself] at htop ⊢
    exact hkeeps.base_le htop
  rw [forwardedCount_getD registries key hc hle', hself, hf]
  rw [hself] at hc
  rw [hf] at hnew
  cases hmarked with
  | duplicate hdup _ _ => rw [hdup] at hnew; cases hnew
  | inOrder _ _ heq hs' hadv =>
    have hc₀ : (m.entry slot).prefixCollapsed = false := by
      rw [hs'] at hc; exact hc
    have hle : (m.entry slot).base ≤ u64Max := heq ▸ U64.le_max seq
    -- the old base is stored now, and it is not sparse
    have hgrew : (m.entry slot).base < ((m.entry slot).markForwarded seq).1.base := by
      have hin : (seq : Nat) ∈ ((m.entry slot).markForwarded seq).1.seqs.mem := hkeeps.stored (Or.inl rfl)
      obtain hlow | hahead := hin
      · exact heq ▸ hlow
      · rw [hs'] at hahead
        have := absorb_ahead_subset u64Max _ hahead
        have := (h.keeps slot).canonical _ this
        exact absurd this (by rw [heq]; exact lt_irrefl _)
    rw [hadv, hc, forwardedCount_getD registries key hc₀ hle]
    simpa using hgrew
  | sparse _ _ _ hs' hadv =>
    have hs := hs' hc
    have hc₀ : (m.entry slot).prefixCollapsed = false := by
      rw [hs] at hc; exact hc
    have hbase : ((m.entry slot).markForwarded seq).1.base = (m.entry slot).base := by rw [hs]; rfl
    have hle : (m.entry slot).base ≤ u64Max := by rw [← hbase, ← hself]; exact hle'
    rw [hadv, forwardedCount_getD registries key hc₀ hle, hbase]
    simp

end Readers

/-- **The forward-once gate, over every run of `mark_forwarded`.** With `M` the seqs of `slot` that were let
    through as new: a call is new exactly outside `M` and above the prefix top, a seq below the top and
    outside `M` needs a collapse, and nothing is new twice; the sparse set stays under its bound and never
    touches the prefix; `forwarded_count`, the `prefix_advanced` flag, `forward_gate_reading` and
    `highest_forwarded_seq` read `M` as their names say. -/
theorem forward_gate_reads_letThrough {κ : Type} [DecidableEq κ] (registries : SeenRegistries κ) (key : κ)
    (calls : List (SlotId × U64)) (slot : SlotId) :
    let m := (Trace.run step .new calls).1
    let log := (Trace.run step .new calls).2
    let M := letThrough log slot
    let s := m.entry slot
    let r := holding registries key m
    ((∀ seq : U64, (m.markForwarded slot seq).2.seen = .new ↔
          (seq : Nat) ∉ M ∧ ¬ s.forwardedThrough.any ((seq : Nat) ≤ ·)) ∧
        (∀ n, s.forwardedThrough.any (n ≤ ·) → n ∉ M → s.prefixCollapsed = true) ∧ OnceEach log) ∧
      (s.ahead.card ≤ sparseSeenCap ∧ (∀ t, s.forwardedThrough = some t → t + 1 ∉ s.ahead) ∧
        (s.forwardedThrough = none → 0 ∉ s.ahead)) ∧
      ((s.prefixCollapsed = false → ∀ n : U64, forwardedCount r key slot = some (n : Nat) ↔
          1 ≤ (n : Nat) ∧ (∀ k < (n : Nat), k ∈ M) ∧ (n : Nat) ∉ M) ∧
        ∀ seq : U64, ((m.markForwarded slot seq).1.entry slot).prefixCollapsed = false →
          ((m.markForwarded slot seq).1.entry slot).forwardedThrough ≠ some u64Max →
          (m.markForwarded slot seq).2.seen = .new →
          ((m.markForwarded slot seq).2.prefixAdvanced = true ↔ (forwardedCount r key slot).getD 0 <
              (forwardedCount (holding registries key (m.markForwarded slot seq).1) key slot).getD 0)) ∧
      ((∀ n : U64, forwardGateReading r key slot = .count n ↔ 1 ≤ (n : Nat) ∧ M = {k | k < (n : Nat)}) ∧
        (forwardGateReading r key slot = .neverForwarded ↔ M = ∅)) ∧
      (∀ n, highestForwardedSeq r key slot = some n ↔ IsGreatest M n) := by
  intro m log M s r
  have h : Gate m log := Gate.run calls
  have hbase : s.base ∉ s.ahead := fun hin =>
    base_not_mem (h.keeps slot).canonical (.inr hin)
  refine ⟨⟨h.new_iff, ?_, h.once⟩, ⟨h.capped slot, ?_, ?_⟩, ⟨?_, ?_⟩, ⟨?_, ?_⟩, ?_⟩
  · intro n hlow hnot
    cases hc : s.prefixCollapsed with
    | true => rfl
    | false => exact absurd ((h.keeps slot).exact hc (.inl (any_le_iff.mp hlow))) hnot
  · intro t ht
    have heq : s.base = t + 1 := by
      show s.seqs.base = t + 1
      simp [seqs, ht]
    rw [← heq]; exact hbase
  · intro hnone
    have heq : s.base = 0 := base_eq_zero.mpr hnone
    rw [← heq]; exact hbase
  · exact fun hc n => h.forwardedCount_iff registries key hc n
  · exact fun seq hc htop hnew => h.prefixAdvanced_iff registries key seq hc htop hnew
  · exact fun n => h.forwardGateReading_count_iff registries key n
  · exact h.forwardGateReading_never_iff registries key
  · exact fun n => h.highestForwardedSeq_iff registries key

end RallyPoint.Relay
