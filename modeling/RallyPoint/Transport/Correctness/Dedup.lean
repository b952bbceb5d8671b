import RallyPoint.Transport.Dedup

/-!
# `Transport.Correctness.Dedup` — the dedup delivers every payload exactly once

The strict dedup (`Dedup.withWindow`) against its purpose: remember, for each slot, the set of seqs
already delivered. The abstract side is that set and nothing else (`Delivered`); the dedup **refines** it
(`Refines`) when each slot's entry is canonical, holds `u64` seqs only, and stores exactly the slot's
set.
-/

namespace RallyPoint.Transport

open Lib Function List PrefixSet Dedup Set

/-! ## One slot -/

namespace SlotDedup

/-- Of every slot entry: nothing in `ahead` touches the prefix, and only `u64` seqs are stored. -/
structure Good (s : SlotDedup) : Prop where
  canonical : s.seqs.Canonical
  within : s.seqs.Within u64Max

/-- The lowest seq not yet part of the contiguous delivered prefix. -/
def base (s : SlotDedup) : Nat := s.seqs.base

/-- The delivered seqs. -/
def delivered (s : SlotDedup) : Set Nat := s.seqs.mem

theorem pristine_good : pristine.Good := ⟨empty_canonical, empty_within _⟩

@[simp] theorem pristine_delivered : pristine.delivered = ∅ := empty_mem

variable {s : SlotDedup} {seq w : Nat}

theorem any_le_iff : (s.deliveredThrough.any (seq ≤ ·)) = true ↔ seq < s.base := top_any_iff (s := s.seqs)

theorem nextBase_eq (hseq : seq ≤ u64Max) (hlow : s.base ≤ seq) : s.nextBase = some s.base := by
  rw [base, ← checkedBase_eq (s := s.seqs) hseq hlow]
  unfold nextBase seqs
  cases s.deliveredThrough <;> rfl

/-- Delivering the base extends the prefix by it. -/
theorem advanceContiguous_spec (hs : s.Good) (hb : s.base ≤ u64Max) :
    (s.advanceContiguous s.base).Good ∧ (s.advanceContiguous s.base).delivered = insert s.base s.delivered := by
  have hlow := advance_low hs.canonical
  have hin := advance_within hs.within hb
  refine ⟨⟨absorb_canonical hlow hin, absorb_within hlow hin⟩, ?_⟩
  exact (absorb_mem hlow hin).trans (mem_advance s.seqs)

/-- A seq above the base goes into `ahead`. -/
theorem put_spec (hs : s.Good) (hb : s.base < seq) (hseq : seq ≤ u64Max) :
    Good { s with ahead := insert seq s.ahead } ∧
      delivered { s with ahead := insert seq s.ahead } = insert seq s.delivered :=
  ⟨⟨put_canonical hs.canonical hb, put_within hs.within hseq⟩, mem_put seq s.seqs⟩

theorem markDelivered_eq (hseq : seq ≤ u64Max) : s.markDelivered seq = if seq < s.base then some s
    else if seq = s.base then some (s.advanceContiguous seq)
    else some { s with ahead := insert seq s.ahead } := by
  obtain ⟨_ | t, a⟩ := s
  · have h0 : base ⟨none, a⟩ = 0 := rfl
    rw [h0, if_neg (Nat.not_lt_zero seq)]
    by_cases hz : seq = 0
    · subst hz; rfl
    · simp [markDelivered, hz]
  · have ht : base ⟨some t, a⟩ = t + 1 := rfl
    rw [ht]
    by_cases hle : seq ≤ t
    · rw [if_pos (Nat.lt_succ_of_le hle)]
      simp [markDelivered, hle]
    · have hstep : checkedAdd u64Max t 1 = some (t + 1) := checkedAdd_of_le (by omega)
      rw [if_neg (by omega)]
      simp [markDelivered, hle, hstep]

theorem markDelivered_spec (hs : s.Good) (hseq : seq ≤ u64Max) : ∃ s', s.markDelivered seq = some s' ∧
    s'.Good ∧ s'.delivered = insert seq s.delivered := by
  rw [markDelivered_eq hseq]
  by_cases hlow : seq < s.base
  · rw [if_pos hlow]
    have hmem : seq ∈ s.delivered := .inl hlow
    exact ⟨s, rfl, hs, (insert_eq_of_mem hmem).symm⟩
  · rw [if_neg hlow]
    by_cases heq : seq = s.base
    · subst heq
      rw [if_pos rfl]
      exact ⟨_, rfl, advanceContiguous_spec hs hseq⟩
    · rw [if_neg heq]
      exact ⟨_, rfl, put_spec hs (by omega) hseq⟩

variable {through : Nat}

theorem aheadPast_eq (hs : s.Good) : s.aheadPast through = s.ahead.filter (through < ·) := by
  by_cases hlt : through + 1 ≤ u64Max
  · rw [aheadPast, checkedAdd_of_le hlt]; rfl
  · have hnone : checkedAdd u64Max through 1 = none := if_neg hlt
    rw [aheadPast, hnone]
    symm
    apply Finset.filter_false_of_mem
    intro n hn
    have := hs.within n (.inr hn)
    omega

/-- Raising a good entry's prefix to `t` and absorbing what then touches it. -/
theorem raise_spec {t : Nat} (hs : s.Good) (hb : s.base ≤ t + 1) (ht : t ≤ u64Max) :
    (absorbContiguousRun ⟨some t, s.ahead.filter (t < ·)⟩).Good ∧
      (absorbContiguousRun ⟨some t, s.ahead.filter (t < ·)⟩).delivered = {n | n ≤ t} ∪ s.delivered := by
  have hlow := raise_low s.seqs t
  have hin := raise_within hs.within hb ht
  exact ⟨⟨absorb_canonical hlow hin, absorb_within hlow hin⟩,
    (absorb_mem hlow hin).trans (mem_raise hb)⟩

theorem markDeliveredThrough_spec (hs : s.Good) (ht : through ≤ u64Max) :
    (s.markDeliveredThrough through).Good ∧ (s.markDeliveredThrough through).delivered =
      s.delivered ∪ {n | n ≤ through} := by
  rw [markDeliveredThrough, aheadPast_eq hs]
  by_cases hlow : s.base ≤ through
  · -- the prefix moves up to `through`
    have hall : s.deliveredThrough.all (· < through) = true := by
      obtain ⟨_ | t, a⟩ := s
      · rfl
      · exact decide_eq_true hlow
    rw [if_pos hall, union_comm]
    exact raise_spec hs (by omega) ht
  · -- the prefix is already past `through`: the top stays, and every sparse seq lies above it
    have hfilter : s.ahead.filter (through < ·) = s.ahead := by
      apply Finset.filter_true_of_mem
      intro n hn
      have : s.base < n := hs.canonical n hn
      omega
    have hall : ¬ s.deliveredThrough.all (· < through) = true := by
      obtain ⟨_ | t, a⟩ := s
      · exact absurd (Nat.zero_le _) hlow
      · have : ¬ t < through := fun h => hlow h
        simpa using this
    rw [if_neg hall, hfilter]
    have hfix : absorbContiguousRun s = s := by
      rw [absorbContiguousRun, absorb_eq_self hs.canonical, ofSeqs_seqs]
    refine hfix.symm ▸ ⟨hs, (union_eq_self_of_subset_right ?_).symm⟩
    intro n hn
    have : n ≤ through := hn
    exact .inl (by show n < s.base; omega)

/-- Anchoring moves a pristine entry's base to the anchor and leaves any other entry alone. -/
theorem anchor_spec {top : Nat} (hs : s.Good) (ht : top ≤ u64Max) : (s.anchor top).Good ∧
    (s.delivered = ∅ → (s.anchor top).delivered = {n | n ≤ top}) ∧ (s.delivered ≠ ∅ → s.anchor top = s) := by
  have hiff : s.delivered = ∅ ↔ s.deliveredThrough = none ∧ s.ahead = ∅ := mem_eq_empty
  by_cases hp : s.deliveredThrough = none ∧ s.ahead = ∅
  · rw [anchor, if_pos hp]
    refine ⟨⟨?_, ?_⟩, ?_, fun h => absurd (hiff.mpr hp) h⟩
    · simp [PrefixSet.Canonical, seqs, hp.2]
    · intro n hn
      simp only [seqs, hp.2, mem_iff, base_some, Finset.notMem_empty, or_false] at hn
      omega
    · intro _
      ext n
      show n < top + 1 ∨ n ∈ s.ahead ↔ n ≤ top
      simp only [hp.2, Finset.notMem_empty, or_false]
      omega
  · rw [anchor, if_neg hp]
    exact ⟨hs, fun h => absurd (hiff.mp h) hp, fun _ => rfl⟩

/-! ### Offers -/

/-- Of every entry of a dedup. A collapsing one also keeps its sparse seqs inside the window. -/
structure Sound (w : Nat) (collapse : Bool) (s : SlotDedup) : Prop where
  good : s.Good
  fits : collapse = true → 0 < w ∧ ∀ n ∈ s.ahead, n < s.base + w

/-- How an offer of `seq` ends. A seq that is new takes everything a window below it along: in a strict
    dedup, and in a collapsing one whose prefix did not move, that was delivered before. -/
inductive Accepted (w : Nat) (collapse : Bool) (s : SlotDedup) (seq : Nat) : SlotDedup → Delivery → Prop where
  | new {s' : SlotDedup} (hw : 0 < w) (hnot : seq ∉ s.delivered) (hin : collapse = false → seq < s.base + w)
      (hdelivered : s'.delivered = insert seq ({n | n + w ≤ seq} ∪ s.delivered)) : Accepted w collapse s seq s' .new
  | duplicate (hmem : seq ∈ s.delivered) (hin : seq < s.base + w) : Accepted w collapse s seq s .duplicate
  | outOfWindow (hstrict : collapse = false) (hout : s.base + w ≤ seq) : Accepted w collapse s seq s .outOfWindow

variable {s' : SlotDedup} {collapse : Bool}

/-- More is delivered above a base that is no lower. -/
theorem base_mono (hs' : s'.Good) (hsub : s.delivered ⊆ s'.delivered) : s.base ≤ s'.base := by
  by_contra hlt
  exact base_not_mem hs'.canonical (hsub (.inl (not_le.mp hlt)))

theorem absorbContiguousRun_ahead (s : SlotDedup) : s.absorbContiguousRun.ahead ⊆ s.ahead := absorb_ahead_subset _ _

/-- More is delivered, and no sparse seq is added. -/
theorem Sound.grow (h : s.Sound w collapse) (hgood : s'.Good) (hsub : s.delivered ⊆ s'.delivered)
    (hahead : s'.ahead ⊆ s.ahead) : s'.Sound w collapse := by
  refine ⟨hgood, fun hcollapse => ⟨(h.fits hcollapse).1, ?_⟩⟩
  intro n hn
  exact lt_of_lt_of_le ((h.fits hcollapse).2 n (hahead hn)) (Nat.add_le_add_right (base_mono hgood hsub) w)

/-- A seq at or above the base that is not stored is inserted. -/
theorem insertAhead_spec (hs : s.Good) (hb : s.base ≤ seq) (hseq : seq ≤ u64Max) (hnot : seq ∉ s.ahead) :
    ∃ s', s.insertAhead seq = (s', .new) ∧ s'.Good ∧ s'.delivered = insert seq s.delivered ∧
      s'.ahead ⊆ insert seq s.ahead := by
  have hlow : ∀ n ∈ (s.seqs.put seq).ahead, (s.seqs.put seq).base ≤ n := by
    intro n hn
    rcases Finset.mem_insert.mp hn with rfl | hn
    · exact hb
    · exact le_of_lt (hs.canonical n hn)
  have hin : (s.seqs.put seq).Within u64Max := put_within hs.within hseq
  refine ⟨_, if_neg hnot, ⟨absorb_canonical hlow hin, absorb_within hlow hin⟩, ?_, absorbContiguousRun_ahead _⟩
  exact (absorb_mem hlow hin).trans (mem_put seq s.seqs)

/-- An offer at or above the base, in the order the source makes its checks. -/
theorem accept_eq (hseq : seq ≤ u64Max) (hb : s.base ≤ seq) :
    s.accept w collapse seq = if w ≠ 0 ∧ seq = s.base then some (s.advanceContiguous seq, .new) else if w ≤ seq - s.base then
        if collapse then some ((absorbContiguousRun ⟨some (seq - w), s.ahead.filter (seq - w < ·)⟩).insertAhead seq)
        else some (s, .outOfWindow)
      else some (s.insertAhead seq) := by
  have hlow : ¬ (s.deliveredThrough.any (seq ≤ ·)) = true := by
    rw [any_le_iff]
    omega
  rw [accept, if_neg hlow, nextBase_eq hseq hb]
  simp only [Option.bind_eq_bind, Option.bind_some, checkedSub_of_le hb]
  split
  · rfl
  · split
    · rename_i hw
      have hle : w ≤ seq := by omega
      cases collapse with
      | false => rfl
      | true => simp only [if_true, collapseForwardUntilFits, checkedSub_of_le hle, Option.bind_eq_bind, Option.bind_some]
    · rfl

theorem accept_low (hb : seq < s.base) : s.accept w collapse seq = some (s, .duplicate) := by
  rw [accept, if_pos (any_le_iff.mpr hb)]

/-- **No offer overflows**, whatever the entry is. -/
theorem accept_total (s : SlotDedup) (w : Nat) (collapse : Bool) (hseq : seq ≤ u64Max) :
    ∃ s' r, s.accept w collapse seq = some (s', r) := by
  by_cases hb : seq < s.base
  · exact ⟨_, _, accept_low hb⟩
  · rw [accept_eq hseq (not_lt.mp hb)]
    split
    · exact ⟨_, _, rfl⟩
    · split
      · cases collapse <;> exact ⟨_, _, rfl⟩
      · exact ⟨_, _, rfl⟩

/-- Inside the window, what lies a window below a seq is delivered. -/
theorem delivered_below (hin : seq < s.base + w) :
    insert seq ({n | n + w ≤ seq} ∪ s.delivered) = insert seq s.delivered := by
  congr 1
  refine union_eq_self_of_subset_left ?_
  intro n hn
  have : n + w ≤ seq := hn
  exact .inl (show n < s.base by omega)

/-- The offer that moves the prefix of a collapsing dedup. -/
theorem collapse_spec (hs : s.Sound w true) (hseq : seq ≤ u64Max) (hout : s.base + w ≤ seq) :
    ∃ s', (absorbContiguousRun ⟨some (seq - w), s.ahead.filter (seq - w < ·)⟩).insertAhead seq =
      (s', .new) ∧ s'.Sound w true ∧
      s'.delivered = insert seq ({n | n + w ≤ seq} ∪ s.delivered) := by
  obtain ⟨hw, hfits⟩ := hs.fits rfl
  obtain ⟨hgood, hdelivered⟩ := raise_spec hs.good (show s.base ≤ seq - w + 1 by omega) (show seq - w ≤ u64Max by omega)
  have hahead := absorbContiguousRun_ahead ⟨some (seq - w), s.ahead.filter (seq - w < ·)⟩
  set c := absorbContiguousRun ⟨some (seq - w), s.ahead.filter (seq - w < ·)⟩ with hc
  -- everything stored lies below the seq, so the run that is absorbed ends below it
  have hbelow : ∀ n ∈ c.delivered, n < seq := by
    intro n hn
    rw [hdelivered] at hn
    rcases hn with hn | hn | hn
    · have : n ≤ seq - w := hn
      omega
    · have : n < s.base := hn
      omega
    · have := hfits n hn
      omega
  have hlow : seq - w < c.base := by
    by_contra hge
    refine base_not_mem hgood.canonical ?_
    show c.base ∈ c.delivered
    rw [hdelivered]
    exact .inl (not_lt.mp hge)
  have hnot : seq ∉ c.ahead := fun hmem => absurd (hbelow seq (.inr hmem)) (lt_irrefl _)
  have hbase : c.base ≤ seq := by
    by_contra hlt
    exact absurd (hbelow seq (.inl (not_le.mp hlt))) (lt_irrefl _)
  obtain ⟨s', heq, hgood', hdelivered', hahead'⟩ := insertAhead_spec hgood hbase hseq hnot
  refine ⟨s', heq, ⟨hgood', fun _ => ⟨hw, ?_⟩⟩, ?_⟩
  · have hmono : c.base ≤ s'.base := base_mono hgood' (hdelivered' ▸ subset_insert _ _)
    intro n hn
    rcases Finset.mem_insert.mp (hahead' hn) with rfl | hn
    · omega
    · have := hbelow n (.inr hn)
      omega
  · rw [hdelivered', hdelivered]
    congr 2
    ext n
    show n ≤ seq - w ↔ n + w ≤ seq
    omega

/-- **How an offer ends**, in either mode. -/
theorem accept_sound (hs : s.Sound w collapse) (hseq : seq ≤ u64Max) :
    ∃ s' r, s.accept w collapse seq = some (s', r) ∧ Accepted w collapse s seq s' r ∧ s'.Sound w collapse := by
  by_cases hb : seq < s.base
  · exact ⟨s, .duplicate, accept_low hb, .duplicate (.inl hb) (Nat.lt_add_right w hb), hs⟩
  rw [accept_eq hseq (not_lt.mp hb)]
  by_cases hbase : w ≠ 0 ∧ seq = s.base
  · obtain ⟨hw, rfl⟩ := hbase
    rw [if_pos ⟨hw, rfl⟩]
    obtain ⟨hgood, hdelivered⟩ := advanceContiguous_spec hs.good hseq
    have hahead : (s.advanceContiguous s.base).ahead ⊆ s.ahead :=
      absorbContiguousRun_ahead { s with deliveredThrough := some s.base }
    refine ⟨_, _, rfl, .new (Nat.pos_of_ne_zero hw) (base_not_mem hs.good.canonical) (fun _ => by omega) ?_,
      hs.grow hgood (hdelivered ▸ subset_insert _ _) hahead⟩
    rw [delivered_below (by omega), hdelivered]
  rw [if_neg hbase]
  by_cases hout : w ≤ seq - s.base
  · rw [if_pos hout]
    cases collapse with
    | false => exact ⟨s, _, rfl, .outOfWindow rfl (by omega), hs⟩
    | true =>
      obtain ⟨s', heq, hsound, hdelivered⟩ := collapse_spec hs hseq (by omega)
      refine ⟨s', .new, ?_, .new (hs.fits rfl).1 ?_ (by simp) hdelivered, hsound⟩
      · rw [if_pos rfl, heq]
      · rintro (hmem | hmem)
        · exact hb hmem
        · have := (hs.fits rfl).2 seq hmem
          omega
  · rw [if_neg hout]
    by_cases hmem : seq ∈ s.ahead
    · refine ⟨s, .duplicate, ?_, .duplicate (.inr hmem) (by omega), hs⟩
      rw [insertAhead, if_pos hmem]
    · obtain ⟨s', heq, hgood, hdelivered, hahead⟩ := insertAhead_spec hs.good (not_lt.mp hb) hseq hmem
      refine ⟨s', .new, by rw [heq], .new (by omega) ?_ (fun _ => by omega) ?_, hgood, ?_⟩
      · rintro (hlow | hstored)
        · exact hb hlow
        · exact hmem hstored
      · rw [delivered_below (by omega), hdelivered]
      · intro hcollapse
        have hmono : s.base ≤ s'.base := base_mono hgood (hdelivered ▸ subset_insert _ _)
        refine ⟨(hs.fits hcollapse).1, ?_⟩
        intro n hn
        rcases Finset.mem_insert.mp (hahead hn) with rfl | hn
        · omega
        · have := (hs.fits hcollapse).2 n hn
          omega

end SlotDedup

/-! ## The whole dedup -/

/-- The abstract receive side: the seqs each slot has delivered. -/
abbrev Delivered := SlotId → Set Nat

namespace Delivered

variable (D : Delivered) (slot : SlotId)

/-- Nothing delivered yet. -/
def none : Delivered := fun _ => ∅

/-- The seqs in `A` are delivered for `slot`. -/
def add (A : Set Nat) : Delivered := update D slot (D slot ∪ A)

/-- A list of payloads is handed to the consumer. -/
def handOn (ps : List Payload) : Delivered := fun slot => D slot ∪ {n | ∃ p ∈ ps, p.key? = some ⟨slot, n⟩}

@[simp] theorem add_self (A : Set Nat) : D.add slot A slot = D slot ∪ A := update_self ..

theorem add_of_ne {slot slot' : SlotId} (A : Set Nat) (h : slot' ≠ slot) : D.add slot A slot' = D slot' := update_of_ne h ..

theorem add_add (A B : Set Nat) : (D.add slot A).add slot B = D.add slot (A ∪ B) := by
  unfold add
  rw [update_idem, update_self, union_assoc]

@[simp] theorem none_add_self (slot : SlotId) (A : Set Nat) : none.add slot A slot = A := by
  rw [add_self]
  exact empty_union A

@[simp] theorem add_empty : D.add slot ∅ = D := by
  unfold add
  rw [union_empty, update_eq_self]

@[simp] theorem handOn_nil : D.handOn [] = D := by ext slot n; simp [handOn]

theorem handOn_cons {p : Payload} {slot : SlotId} (hp : SlotId.ofWire p.slot = some slot)
    (ps : List Payload) : D.handOn (p :: ps) = (D.add slot {(p.seq : Nat)}).handOn ps := by
  ext slot' n
  have hkey : p.key? = some ⟨slot', n⟩ ↔ slot = slot' ∧ (p.seq : Nat) = n := by simp [Payload.key?, hp]
  simp only [handOn, mem_cons, exists_eq_or_imp, hkey, mem_union, mem_ofPred_eq]
  by_cases hs : slot' = slot
  · subst hs
    simp only [add_self, true_and, mem_union, mem_singleton_iff, eq_comm, or_assoc]
  · rw [add_of_ne D _ hs]
    have hne : ¬ slot = slot' := fun h => hs h.symm
    simp only [hne, false_and, false_or]

theorem subset_handOn (ps : List Payload) (slot : SlotId) : D slot ⊆ D.handOn ps slot := fun _ h => .inl h

end Delivered

namespace Dedup

/-- **The strict dedup `d` with window `w` stores exactly the delivered seqs `D`.** -/
structure Refines (w : Nat) (d : Dedup) (D : Delivered) : Prop where
  window : d.window = w
  strict : d.forwardCollapse = false
  good : ∀ slot, (d.entry slot).Good
  delivered : ∀ slot, (d.entry slot).delivered = D slot

variable {w : Nat} {d d' : Dedup} {D : Delivered} {slot : SlotId}

@[simp] theorem setSlot_self (s : SlotDedup) : (d.setSlot slot s).entry slot = s := by simp [entry, setSlot]

variable {slot' : SlotId}

theorem setSlot_of_ne (s : SlotDedup) (h : slot' ≠ slot) : (d.setSlot slot s).entry slot' = d.entry slot' := by
  simp [entry, setSlot, update_of_ne h]

theorem withWindow_refines (w : Nat) : Refines w (withWindow w) .none :=
  ⟨rfl, rfl, fun _ => SlotDedup.pristine_good, fun _ => SlotDedup.pristine_delivered⟩

theorem deliveredThrough_eq_entry : d.deliveredThrough slot = (d.entry slot).deliveredThrough := by
  unfold deliveredThrough entry
  cases d.slots slot <;> rfl

/-- Replacing one slot's entry by a good one replaces that slot's delivered set. -/
theorem Refines.setSlot (h : Refines w d D) (slot : SlotId) {s : SlotDedup} (hs : s.Good) {A : Set Nat}
    (hA : s.delivered = A) : Refines w (d.setSlot slot s) (update D slot A) := by
  refine ⟨h.window, h.strict, ?_, ?_⟩
  · intro slot'
    by_cases hne : slot' = slot
    · subst hne; rw [setSlot_self]; exact hs
    · rw [setSlot_of_ne s hne]; exact h.good slot'
  · intro slot'
    by_cases hne : slot' = slot
    · subst hne; rw [setSlot_self, update_self]; exact hA
    · rw [setSlot_of_ne s hne, update_of_ne hne]; exact h.delivered slot'

/-- The base of a slot: the least seq it has not delivered. -/
theorem Refines.base_isLeast (h : Refines w d D) (slot : SlotId) : IsLeast (D slot)ᶜ (d.entry slot).base := by
  rw [← h.delivered slot]
  exact PrefixSet.base_isLeast (h.good slot).canonical

/-- How an offer of `seq` for `slot` ends: the answer, what it says about the delivered set, and that set
    afterwards. -/
inductive Offered (w : Nat) (d : Dedup) (D : Delivered) (slot : SlotId) (seq : Nat) :
    Delivery → Delivered → Prop
  | new : seq ∉ D slot → seq < (d.entry slot).base + w → Offered w d D slot seq .new (D.add slot {seq})
  | duplicate : seq ∈ D slot → seq < (d.entry slot).base + w → Offered w d D slot seq .duplicate D
  | outOfWindow : (d.entry slot).base + w ≤ seq → Offered w d D slot seq .outOfWindow D

/-- What holds of every entry. -/
def Sound (d : Dedup) : Prop := ∀ slot, (d.entry slot).Sound d.window d.forwardCollapse

theorem Sound.setSlot (h : d.Sound) {s : SlotDedup} (hs : s.Sound d.window d.forwardCollapse) :
    (d.setSlot slot s).Sound := by
  intro slot'
  by_cases hne : slot' = slot
  · subst hne
    rw [setSlot_self]
    exact hs
  · rw [setSlot_of_ne s hne]
    exact h slot'

/-- An offer to a sound dedup. -/
theorem Sound.accept (h : d.Sound) (slot : SlotId) {seq : Nat} (hseq : seq ≤ u64Max) :
    ∃ s r, d.accept slot seq = some (d.setSlot slot s, r) ∧ (d.setSlot slot s).Sound ∧
      (d.entry slot).Accepted d.window d.forwardCollapse seq s r := by
  obtain ⟨s, r, heq, haccepted, hsound⟩ := SlotDedup.accept_sound (h slot) hseq
  exact ⟨s, r, by rw [Dedup.accept, heq]; rfl, h.setSlot hsound, haccepted⟩

theorem Refines.sound (h : Refines w d D) : d.Sound := by
  intro slot
  rw [h.strict]
  exact ⟨h.good slot, by simp⟩

/-- **`accept` ends in one of the three ways, and never overflows.** Only the offered slot changes. -/
theorem Refines.accept (h : Refines w d D) (slot : SlotId) {seq : Nat} (hseq : seq ≤ u64Max) :
    ∃ s r D', d.accept slot seq = some (d.setSlot slot s, r) ∧ Offered w d D slot seq r D' ∧
      Refines w (d.setSlot slot s) D' := by
  obtain ⟨s, r, hacc, hsound, haccepted⟩ := h.sound.accept slot hseq
  have hgood : s.Good := by
    have := (hsound slot).good
    rwa [setSlot_self] at this
  have hkeep : Refines w (d.setSlot slot (d.entry slot)) D := by
    have hset := h.setSlot slot (h.good slot) (h.delivered slot)
    rwa [update_eq_self] at hset
  rw [h.window, h.strict] at haccepted
  cases haccepted with
  | new hw hnot hin hdelivered =>
    refine ⟨s, .new, _, hacc, .new (h.delivered slot ▸ hnot) (hin rfl), h.setSlot slot hgood ?_⟩
    rw [hdelivered, SlotDedup.delivered_below (hin rfl), h.delivered slot, union_singleton]
  | duplicate hmem hin => exact ⟨_, .duplicate, D, hacc, .duplicate (h.delivered slot ▸ hmem) hin, hkeep⟩
  | outOfWindow _ hout => exact ⟨_, .outOfWindow, D, hacc, .outOfWindow hout, hkeep⟩

theorem Refines.markDelivered (h : Refines w d D) (slot : SlotId) {seq : Nat} (hseq : seq ≤ u64Max) :
    ∃ s, d.markDelivered slot seq = some (d.setSlot slot s) ∧ Refines w (d.setSlot slot s) (D.add slot {seq}) := by
  obtain ⟨s, heq, hgood, hdel⟩ := SlotDedup.markDelivered_spec (h.good slot) hseq
  refine ⟨s, by rw [Dedup.markDelivered, heq]; rfl, h.setSlot slot hgood ?_⟩
  rw [hdel, h.delivered slot, union_singleton]

theorem Refines.markDeliveredThrough (h : Refines w d D) (slot : SlotId) {through : Nat} (ht : through ≤ u64Max) :
    Refines w (d.markDeliveredThrough slot through) (D.add slot {n | n ≤ through}) := by
  obtain ⟨hgood, hdel⟩ := SlotDedup.markDeliveredThrough_spec (h.good slot) ht
  exact h.setSlot slot hgood (by rw [hdel, h.delivered slot])

open Classical in
/-- Anchoring delivers everything below the anchor, on a slot that has delivered nothing. -/
theorem Refines.anchor (h : Refines w d D) (slot : SlotId) {a : Nat} (ha : a ≤ u64Max) :
    Refines w (d.anchor slot a) (if D slot = ∅ then D.add slot {n | n < a} else D) := by
  by_cases h0 : 1 ≤ a
  · rw [Dedup.anchor, checkedSub_of_le h0]
    obtain ⟨hgood, hpristine, hkeep⟩ := SlotDedup.anchor_spec (h.good slot) (show a - 1 ≤ u64Max by omega)
    rw [h.delivered slot] at hpristine hkeep
    by_cases hD : D slot = ∅
    · rw [if_pos hD]
      refine h.setSlot slot hgood ?_
      rw [hpristine hD, hD, empty_union]
      ext n
      simp only [mem_ofPred_eq]
      omega
    · rw [if_neg hD]
      have hsame : update D slot (D slot) = D := update_eq_self ..
      have hset := h.setSlot slot (h.good slot) (h.delivered slot)
      rw [hsame] at hset
      show Refines w (d.setSlot slot _) D
      rw [hkeep hD]
      exact hset
  · -- `anchor.checked_sub(1)` fails only for 0, which adds nothing
    have hz : a = 0 := by omega
    subst hz
    have hnone : d.anchor slot 0 = d := rfl
    have hD : (if D slot = ∅ then D.add slot {n | n < 0} else D) = D := by
      split
      · simp [Delivered.add]
      · rfl
    rw [hnone, hD]
    exact h

/-! ### The whole-packet filter -/

/-- The packet names `slot`. -/
def Named (slot : SlotId) (ps : List Payload) : Prop := ∃ p ∈ ps, SlotId.ofWire p.slot = some slot

variable {p : Payload} {ps kept : List Payload} {failure : Option DedupError} {d'' : Dedup}

theorem retainLoop_malformed (hp : SlotId.ofWire p.slot = none) :
    d.retainLoop (p :: ps) = some (d, some (.malformedSlot p.slot), []) := by
  simp [retainLoop, hp]

section Named

variable (hp : SlotId.ofWire p.slot = some slot)
include hp

theorem retainLoop_outOfWindow (ha : d.accept slot p.seq = some (d', .outOfWindow)) :
    d.retainLoop (p :: ps) = some (d', some (.payloadOutOfWindow slot p.seq), []) := by
  simp [retainLoop, hp, ha]

theorem retainLoop_duplicate
    (ha : d.accept slot p.seq = some (d', .duplicate)) : d.retainLoop (p :: ps) = d'.retainLoop ps := by
  simp [retainLoop, hp, ha]

theorem retainLoop_new (ha : d.accept slot p.seq = some (d', .new))
    (hr : d'.retainLoop ps = some (d'', failure, kept)) : d.retainLoop (p :: ps) = some (d'', failure, p :: kept) := by
  simp [retainLoop, hp, ha, hr]

theorem not_named_cons (h : ¬ Named slot' (p :: ps)) : slot' ≠ slot ∧ ¬ Named slot' ps := by
  refine ⟨?_, ?_⟩
  · rintro rfl
    exact h ⟨p, mem_cons_self, hp⟩
  · rintro ⟨q, hq, hs⟩
    exact h ⟨q, mem_cons_of_mem p hq, hs⟩

end Named

/-- An offer changes the entry of its slot and nothing else. -/
theorem accept_frame {seq : Nat} {r : Delivery} (h : d.accept slot seq = some (d', r)) :
    (∀ slot' ≠ slot, d'.slots slot' = d.slots slot') ∧ { d' with slots := d.slots } = d := by
  unfold Dedup.accept at h
  obtain ⟨⟨s, r'⟩, hs, heq⟩ := Option.bind_eq_some_iff.mp h
  obtain ⟨rfl, rfl⟩ := Prod.mk.inj (Option.some.inj heq)
  exact ⟨fun slot' hne => update_of_ne hne .., rfl⟩

theorem accept_total (d : Dedup) (slot : SlotId) (seq : U64) : ∃ d' r, d.accept slot seq = some (d', r) := by
  obtain ⟨s, r, h⟩ := (d.entry slot).accept_total d.window d.forwardCollapse (U64.le_max seq)
  refine ⟨d.setSlot slot s, r, ?_⟩
  rw [Dedup.accept, h]
  rfl

/-- **The pass over a packet never overflows and changes the packet's slots only**, in any dedup. -/
theorem retainLoop_frame (d : Dedup) (ps : List Payload) :
    ∃ d' failure kept, d.retainLoop ps = some (d', failure, kept) ∧
      (∀ slot, ¬ Named slot ps → d'.slots slot = d.slots slot) ∧
      { d' with slots := d.slots } = d := by
  induction ps generalizing d with
  | nil => exact ⟨d, none, [], rfl, fun _ _ => rfl, rfl⟩
  | cons p ps ih =>
    cases hslot : SlotId.ofWire p.slot with
    | none => exact ⟨d, _, [], retainLoop_malformed hslot, fun _ _ => rfl, rfl⟩
    | some slot =>
      obtain ⟨d₁, r, hacc⟩ := d.accept_total slot p.seq
      obtain ⟨hframe, hrest⟩ := accept_frame hacc
      obtain ⟨d', failure, kept, hloop, hframe', hrest'⟩ := ih d₁
      have hwhole : (∀ slot', ¬ Named slot' (p :: ps) → d'.slots slot' = d.slots slot') ∧
        { d' with slots := d.slots } = d := by
        refine ⟨?_, ?_⟩
        · intro slot' hn
          obtain ⟨hne, hn'⟩ := not_named_cons hslot hn
          rw [hframe' slot' hn', hframe slot' hne]
        · rw [← hrest'] at hrest
          exact hrest
      cases r with
      | new => exact ⟨d', failure, p :: kept, retainLoop_new hslot hacc hloop, hwhole⟩
      | duplicate => exact ⟨d', failure, kept, (retainLoop_duplicate hslot hacc).trans hloop, hwhole⟩
      | outOfWindow =>
        refine ⟨d₁, _, [], retainLoop_outOfWindow hslot hacc, ?_, hrest⟩
        intro slot' hn
        exact hframe slot' (not_named_cons hslot hn).1

/-- What a pass of the `retain` closure over `ps` leaves: the kept payloads, and with no failure a packet
    delivered. -/
structure Retained (w : Nat) (D : Delivered) (ps : List Payload) (d' : Dedup)
    (failure : Option DedupError) (kept : List Payload) :
    Prop where
  refines : Refines w d' (D.handOn kept)
  sublist : kept.Sublist ps
  complete : failure = none → ∀ p ∈ ps, ∃ slot, SlotId.ofWire p.slot = some slot ∧ (p.seq : Nat) ∈ D.handOn kept slot

/-- A pass that stops at its first payload hands nothing on. -/
theorem Retained.stop (h : Refines w d' D) (e : DedupError) : Retained w D ps d' (some e) [] := by
  refine ⟨by rwa [Delivered.handOn_nil], nil_sublist _, ?_⟩
  intro hf
  cases hf

/-- **The `retain` pass never overflows, and hands on first deliveries only.** -/
theorem Refines.retainLoop (ps : List Payload) (h : Refines w d D) :
    ∃ d' failure kept, d.retainLoop ps = some (d', failure, kept) ∧ Retained w D ps d' failure kept := by
  induction ps generalizing d D with
  | nil =>
    refine ⟨d, none, [], rfl, ⟨by rwa [Delivered.handOn_nil], .slnil, ?_⟩⟩
    intro _ p hp
    cases hp
  | cons p ps ih =>
    cases hslot : SlotId.ofWire p.slot with
    | none => exact ⟨d, _, [], retainLoop_malformed hslot, .stop h _⟩
    | some slot =>
      obtain ⟨s, r, D₁, hacc, hoff, href⟩ := h.accept slot (U64.le_max p.seq)
      obtain ⟨d', failure, kept, heq, hret⟩ := ih href
      cases hoff with
      | new hnot hin =>
        refine ⟨d', failure, p :: kept, retainLoop_new hslot hacc heq, ?_, hret.sublist.cons_cons p, ?_⟩
        · rw [Delivered.handOn_cons D hslot]
          exact hret.refines
        · intro hnone q hq
          rw [Delivered.handOn_cons D hslot]
          obtain rfl | hq := mem_cons.mp hq
          · refine ⟨slot, hslot, Delivered.subset_handOn _ _ _ ?_⟩
            rw [Delivered.add_self]
            exact .inr rfl
          · exact hret.complete hnone q hq
      | duplicate hmem hin =>
        refine ⟨d', failure, kept, (retainLoop_duplicate hslot hacc).trans heq, hret.refines, hret.sublist.cons p, ?_⟩
        intro hnone q hq
        obtain rfl | hq := mem_cons.mp hq
        · exact ⟨slot, hslot, .inl hmem⟩
        · exact hret.complete hnone q hq
      | outOfWindow hout => exact ⟨_, _, [], retainLoop_outOfWindow hslot hacc, .stop href _⟩

/-- The snapshot holds entries of `d` only. -/
theorem snapshot_entries (d : Dedup) : ∀ (ps : List Payload) (previous : Option SlotId),
    ∀ e ∈ d.snapshotSortedPayloadSlots previous ps, e.2 = d.slots e.1 := by
  intro ps
  induction ps with
  | nil => intro previous e he; cases he
  | cons p ps ih =>
    intro previous e he
    unfold snapshotSortedPayloadSlots at he
    split at he
    · exact ih previous e he
    · split at he
      · exact ih previous e he
      · obtain rfl | he := mem_cons.mp he
        · rfl
        · exact ih _ e he

/-- Every valid slot of the packet is in the snapshot, unless it is the one just captured. -/
theorem snapshot_covers (d : Dedup) : ∀ (ps : List Payload) (previous : Option SlotId) (slot : SlotId),
    Named slot ps → previous ≠ some slot → slot ∈ (d.snapshotSortedPayloadSlots previous ps).map Prod.fst := by
  intro ps
  induction ps with
  | nil => rintro previous slot ⟨p, hp, _⟩; cases hp
  | cons p ps ih =>
    rintro previous slot ⟨q, hq, hs⟩ hprev
    unfold snapshotSortedPayloadSlots
    split
    · rename_i hnone
      obtain rfl | hq := mem_cons.mp hq
      · rw [hs] at hnone; cases hnone
      · exact ih previous slot ⟨q, hq, hs⟩ hprev
    · rename_i slot' hsome
      have htail : slot' ≠ slot → Named slot ps := by
        intro hne
        obtain rfl | hq := mem_cons.mp hq
        · rw [hs] at hsome; cases hsome; exact absurd rfl hne
        · exact ⟨q, hq, hs⟩
      split
      · rename_i heq
        exact ih previous slot (htail fun h => hprev (h ▸ heq)) hprev
      · by_cases hne : slot' = slot
        · subst hne
          exact mem_cons_self
        · refine mem_cons_of_mem _ (ih (some slot') slot (htail hne) ?_)
          exact fun h => hne (Option.some.inj h)

/-- Restoring entries of `d` puts `d`'s entry back at every captured slot. -/
theorem restore_slots (d d' : Dedup) (snapshot : List (SlotId × Option SlotDedup)) (hs : ∀ e ∈ snapshot, e.2 = d.slots e.1) :
    (d'.restore snapshot).slots =
        (fun slot => if slot ∈ snapshot.map Prod.fst then d.slots slot else d'.slots slot) ∧
      { d'.restore snapshot with slots := d'.slots } = d' := by
  induction snapshot generalizing d' with
  | nil => exact ⟨by simp [restore], rfl⟩
  | cons e es ih =>
    obtain ⟨hslots, hrest⟩ := ih { d' with slots := update d'.slots e.1 e.2 } (fun e' he => hs e' (mem_cons_of_mem e he))
    refine ⟨?_, ?_⟩
    · show (restore _ es).slots = _
      rw [hslots]
      funext slot
      by_cases hin : slot ∈ es.map Prod.fst
      · simp [hin]
      · by_cases hslot : slot = e.1
        · subst hslot
          simp [hs e mem_cons_self]
        · simp [hin, hslot]
    · show ({ restore _ es with slots := d'.slots } : Dedup) = d'
      exact congrArg (fun x : Dedup => { x with slots := d'.slots }) hrest

/-- Restoring the snapshot of a packet undoes every change to the packet's slots. -/
theorem restore_snapshot (hframe : ∀ slot, ¬ Named slot ps → d'.slots slot = d.slots slot)
    (hrest : { d' with slots := d.slots } = d) :
    d'.restore (d.snapshotSortedPayloadSlots none ps) = d := by
  obtain ⟨hslots, hback⟩ := restore_slots d d' _ (snapshot_entries d ps none)
  have hsame : (d'.restore (d.snapshotSortedPayloadSlots none ps)).slots = d.slots := by
    rw [hslots]
    funext slot
    by_cases hin : slot ∈ (d.snapshotSortedPayloadSlots none ps).map Prod.fst
    · exact if_pos hin
    · rw [if_neg hin]
      apply hframe
      intro hn
      exact hin (snapshot_covers d ps none slot hn (by simp))
  rw [← hback, ← hsame] at hrest
  exact hrest

/-- A packet changes the slots it names only. -/
theorem retainFreshPayloads_frame {fresh : List Payload}
    (h : d.retainFreshPayloads ps = some (d', .ok fresh)) (hn : ¬ Named slot ps) :
    d'.slots slot = d.slots slot := by
  obtain ⟨d₁, failure, kept, hloop, hframe, -⟩ := d.retainLoop_frame (sortPayloads ps)
  unfold retainFreshPayloads at h
  simp only [hloop, Option.bind_eq_bind, Option.bind_some] at h
  cases failure with
  | some e => cases h
  | none =>
    cases h
    refine hframe slot ?_
    rintro ⟨p, hp, hs⟩
    exact hn ⟨p, (mem_insertionSort _).mp hp, hs⟩

/-- **`retain_fresh_payloads` is the pass, or nothing.** -/
theorem retainFreshPayloads_cases (d : Dedup) (ps : List Payload) :
    (∃ d' kept, d.retainLoop (sortPayloads ps) = some (d', none, kept) ∧ d.retainFreshPayloads ps = some (d', .ok kept)) ∨
      ∃ d' e kept, d.retainLoop (sortPayloads ps) = some (d', some e, kept) ∧
        d.retainFreshPayloads ps = some (d, .error e) := by
  obtain ⟨d', failure, kept, hloop, hframe, hrest⟩ := d.retainLoop_frame (sortPayloads ps)
  unfold retainFreshPayloads
  simp only [hloop, Option.bind_eq_bind, Option.bind_some]
  cases failure with
  | none => exact .inl ⟨d', kept, rfl, rfl⟩
  | some e => exact .inr ⟨d', e, kept, rfl, by rw [restore_snapshot hframe hrest]⟩

/-- **A packet is taken whole or not at all**: it is delivered and the first deliveries are returned, or
    the dedup is as it was. -/
theorem Refines.retainFreshPayloads (h : Refines w d D) (ps : List Payload) :
    (∃ d' fresh, d.retainFreshPayloads ps = some (d', .ok fresh) ∧ Retained w D (sortPayloads ps) d' none fresh) ∨
      ∃ e, d.retainFreshPayloads ps = some (d, .error e) := by
  obtain ⟨d', failure, kept, hloop, hret⟩ := h.retainLoop (sortPayloads ps)
  rcases d.retainFreshPayloads_cases ps with ⟨d₁, kept₁, hloop₁, heq⟩ | ⟨d₁, e, kept₁, hloop₁, heq⟩
  · cases hloop.symm.trans hloop₁
    exact .inl ⟨d', kept, heq, hret⟩
  · exact .inr ⟨e, heq⟩

end Dedup

/-! ## Runs -/

/-- One call on a dedup, with the arguments its types allow. -/
inductive DedupCall where
  | accept (slot : SlotId) (seq : U64)
  | markDelivered (slot : SlotId) (seq : U64)
  | markDeliveredThrough (slot : SlotId) (through : U64)
  | anchor (slot : SlotId) (anchor : U64)
  | retainFreshPayloads (payloads : List Payload)

/-- What a call answers. -/
inductive DedupReply where
  | delivery (r : Delivery)
  | retained (r : Except DedupError (List Payload))
  | done

/-- The call has `slot` as its slot, or one of its payloads does. -/
def DedupCall.Names (slot : SlotId) : DedupCall → Prop
  | .accept s _ | .markDelivered s _ | .markDeliveredThrough s _ | .anchor s _ => s = slot
  | .retainFreshPayloads ps => Dedup.Named slot ps

/-- Run one call. -/
def Dedup.call (d : Dedup) : DedupCall → Option (Dedup × DedupReply)
  | .accept slot seq => do
      let (d', r) ← d.accept slot seq
      some (d', .delivery r)
  | .markDelivered slot seq => do
      let d' ← d.markDelivered slot seq
      some (d', .done)
  | .markDeliveredThrough slot through => some (d.markDeliveredThrough slot through, .done)
  | .anchor slot anchor => some (d.anchor slot anchor, .done)
  | .retainFreshPayloads ps => do
      let (d', r) ← d.retainFreshPayloads ps
      some (d', .retained r)

open Classical in
/-- What has been delivered after a call, by its arguments and its answer alone. -/
noncomputable def Delivered.after (D : Delivered) : DedupCall → DedupReply → Delivered
  | .accept slot seq, .delivery .new => D.add slot {(seq : Nat)}
  | .markDelivered slot seq, _ => D.add slot {(seq : Nat)}
  | .markDeliveredThrough slot through, _ => D.add slot {n | n ≤ (through : Nat)}
  | .anchor slot anchor, _ => if D slot = ∅ then D.add slot {n | n < (anchor : Nat)} else D
  | .retainFreshPayloads _, .retained (.ok ps) => D.handOn ps
  | _, _ => D

/-- Run a list of calls, keeping the delivered sets beside the dedup. -/
noncomputable def Dedup.track : Dedup × Delivered → List DedupCall → Option (Dedup × Delivered)
  | dD, [] => some dD
  | dD, c :: cs => do
      let (d', r) ← dD.1.call c
      Dedup.track (d', dD.2.after c r) cs

namespace Dedup

variable {w : Nat} {d : Dedup} {D : Delivered}

/-- **One call keeps the refinement**, does not overflow, and leaves every other slot alone. -/
theorem Refines.call (h : Refines w d D) (c : DedupCall) :
    ∃ d' r, d.call c = some (d', r) ∧ Refines w d' (D.after c r) ∧
      ∀ slot, ¬ c.Names slot → d'.slots slot = d.slots slot ∧ D.after c r slot = D slot := by
  have hset : ∀ (slot slot' : SlotId) (s : SlotDedup) (A : Set Nat), ¬ slot' = slot →
      (d.setSlot slot' s).slots slot = d.slots slot ∧ D.add slot' A slot = D slot :=
    fun slot slot' s A hne =>
      ⟨update_of_ne (fun h => hne h.symm) .., D.add_of_ne A fun h => hne h.symm⟩
  cases c with
  | accept slot seq =>
    obtain ⟨s, r, D', hacc, hoff, href⟩ := h.accept slot (U64.le_max seq)
    have hD : D.after (.accept slot seq) (.delivery r) = D' := by cases hoff <;> rfl
    refine ⟨_, .delivery r, by simp [Dedup.call, hacc], hD ▸ href, ?_⟩
    intro slot' hne
    refine ⟨(hset slot' slot s ∅ hne).1, ?_⟩
    cases hoff with
    | new _ _ => exact D.add_of_ne _ fun h => hne h.symm
    | duplicate _ _ => rfl
    | outOfWindow _ => rfl
  | markDelivered slot seq =>
    obtain ⟨s, heq, href⟩ := h.markDelivered slot (U64.le_max seq)
    exact ⟨_, .done, by simp [Dedup.call, heq], href, fun slot' hne => hset slot' slot s _ hne⟩
  | markDeliveredThrough slot through =>
    exact ⟨_, .done, rfl, h.markDeliveredThrough slot (U64.le_max through), fun slot' hne => hset slot' slot _ _ hne⟩
  | anchor slot a =>
    refine ⟨_, .done, rfl, h.anchor slot (U64.le_max a), ?_⟩
    intro slot' hne
    refine ⟨?_, ?_⟩
    · unfold Dedup.anchor
      split
      · rfl
      · exact (hset slot' slot _ ∅ hne).1
    · show (if D slot = ∅ then D.add slot _ else D) slot' = D slot'
      split
      · exact D.add_of_ne _ fun h => hne h.symm
      · rfl
  | retainFreshPayloads ps =>
    obtain ⟨d', fresh, heq, hret⟩ | ⟨e, heq⟩ := h.retainFreshPayloads ps
    · refine ⟨d', .retained (.ok fresh), by simp [Dedup.call, heq], hret.refines, ?_⟩
      intro slot hn
      refine ⟨retainFreshPayloads_frame heq hn, ?_⟩
      · -- no payload of the packet has this slot, so none that is handed on has
        refine union_eq_self_of_subset_right ?_
        rintro n ⟨p, hp, hk⟩
        obtain ⟨s, hs, hsn⟩ := Option.map_eq_some_iff.mp hk
        cases hsn
        exact absurd ⟨p, (mem_insertionSort _).mp (hret.sublist.subset hp), hs⟩ hn
    · exact ⟨d, .retained (.error e), by simp [Dedup.call, heq], h, fun _ _ => ⟨rfl, rfl⟩⟩

/-- **Every run keeps the refinement and none overflows.** -/
theorem Refines.track (h : Refines w d D) (cs : List DedupCall) :
    ∃ d' D', track (d, D) cs = some (d', D') ∧ Refines w d' D' := by
  induction cs generalizing d D with
  | nil => exact ⟨d, D, rfl, h⟩
  | cons c cs ih =>
    obtain ⟨d₁, r, heq, href, -⟩ := h.call c
    obtain ⟨d', D', hrun, href'⟩ := ih href
    exact ⟨d', D', by simp [track, heq, hrun], href'⟩

/-- **The strict dedup answers from the delivered sets alone.** After any run, with `base` the least seq a
    slot has not delivered: an offer a window or more above `base` is refused; any other offer is a
    duplicate when the seq is delivered and new when it is not; `delivered_through` is `base - 1`; a call
    that does not name the slot changes nothing of it. No call overflows. -/
theorem track_answers_from_delivered (w : Nat) (cs : List DedupCall) :
    ∃ d D, track (withWindow w, .none) cs = some (d, D) ∧ ∀ slot : SlotId, ∃ base,
      IsLeast (D slot)ᶜ base ∧
      d.deliveredThrough slot = (if base = 0 then none else some (base - 1)) ∧
      (∀ seq : U64, ∃ d' r, d.accept slot seq = some (d', r) ∧ (r = .outOfWindow ↔ base + w ≤ seq) ∧
        (r = .duplicate ↔ (seq : Nat) ∈ D slot ∧ seq < base + w) ∧ (r = .new ↔ (seq : Nat) ∉ D slot ∧ seq < base + w)) ∧
      ∀ c : DedupCall, ∃ d' r, d.call c = some (d', r) ∧
        (¬ c.Names slot → d'.slots slot = d.slots slot ∧ D.after c r slot = D slot) := by
  obtain ⟨d, D, hrun, href⟩ := (withWindow_refines w).track cs
  refine ⟨d, D, hrun, fun slot => ⟨(d.entry slot).base, href.base_isLeast slot, ?_, ?_, ?_⟩⟩
  · rw [deliveredThrough_eq_entry]
    exact top_eq (s := (d.entry slot).seqs)
  · intro seq
    obtain ⟨s, r, D', hacc, hoff, -⟩ := href.accept slot (U64.le_max seq)
    refine ⟨_, r, hacc, ?_⟩
    cases hoff with
    | new hnot hin => exact ⟨by simp; omega, by simp [hnot], by simp [hnot, hin]⟩
    | duplicate hmem hin => exact ⟨by simp; omega, by simp [hmem, hin], by simp [hmem]⟩
    | outOfWindow hout =>
      exact ⟨by simp [hout], by simp; intro _; omega, by simp; intro _; omega⟩
  · intro c
    obtain ⟨d', r, heq, -, hframe⟩ := href.call c
    exact ⟨d', r, heq, hframe slot⟩

/-- A run on a window of four: seq 1 is accepted ahead of seq 0, and 0 is seeded. -/
theorem track_answers_after_reorder : ∃ d D, track (withWindow 4, .none) [.accept 0 1, .markDelivered 0 0] = some (d, D) ∧
    ∀ slot : SlotId, ∃ base, IsLeast (D slot)ᶜ base ∧
      d.deliveredThrough slot = (if base = 0 then none else some (base - 1)) := by
  obtain ⟨d, D, hrun, hslot⟩ := track_answers_from_delivered 4 [.accept 0 1, .markDelivered 0 0]
  refine ⟨d, D, hrun, fun slot => ?_⟩
  obtain ⟨base, hleast, hthrough, -⟩ := hslot slot
  exact ⟨base, hleast, hthrough⟩

/-- A seq seeded past the window is delivered, yet offering it again is refused: `accept` looks at the
    window before the sparse set. -/
theorem accept_refuses_seeded_past_window :
    ∃ d D, track (withWindow 4, .none) [.markDelivered 0 9] = some (d, D) ∧ 9 ∈ D 0 ∧ ∃ d',
      d.accept 0 9 = some (d', .outOfWindow) :=
  ⟨_, _, rfl, .inr rfl, _, rfl⟩

end Dedup

/-! ## Arrivals -/

namespace Dedup

variable {w : Nat} {d : Dedup} {D : Delivered} {slot : SlotId}

/-- Payloads offered one after the other. -/
def acceptAll : Dedup → List (SlotId × U64) → Option Dedup
  | d, [] => some d
  | d, offer :: rest => do
      let (d', _) ← d.accept offer.1 offer.2
      acceptAll d' rest

/-- Nothing delivered is ever forgotten. -/
theorem Refines.acceptAll (h : Refines w d D) (offers : List (SlotId × U64)) :
    ∃ d' D', d.acceptAll offers = some d' ∧ Refines w d' D' ∧ ∀ slot, D slot ⊆ D' slot := by
  induction offers generalizing d D with
  | nil => exact ⟨d, D, rfl, h, fun _ => subset_rfl⟩
  | cons offer rest ih =>
    obtain ⟨s, r, D₁, hacc, hoff, href⟩ := h.accept offer.1 (U64.le_max offer.2)
    obtain ⟨d', D', hrun, href', hsub⟩ := ih href
    refine ⟨d', D', by simp [Dedup.acceptAll, hacc, hrun], href', fun slot => ?_⟩
    refine subset_trans ?_ (hsub slot)
    cases hoff with
    | new _ _ =>
      by_cases heq : slot = offer.1
      · rw [heq, Delivered.add_self]
        exact subset_union_left
      · rw [Delivered.add_of_ne D _ heq]
    | duplicate | outOfWindow => exact subset_rfl

variable {a : Nat}

/-- A slot that has delivered everything below `a` waits for nothing lower. -/
theorem Refines.le_base (h : Refines w d D) (hlow : ∀ n < a, n ∈ D slot) : a ≤ (d.entry slot).base := by
  by_contra hlt
  exact (h.base_isLeast slot).1 (hlow _ (not_le.mp hlt))

/-- A fresh dedup, anchored. -/
theorem new_anchor_refines (slot : SlotId) (ha : a ≤ u64Max) :
    Refines receiveWindow (new.anchor slot a) (Delivered.none.add slot {n | n < a}) := by
  have h := (withWindow_refines receiveWindow).anchor slot ha
  have hnone : Delivered.none slot = ∅ := rfl
  rwa [if_pos hnone] at h

/-- **An offer within a window of what is delivered** is new iff it is not delivered yet, never refused. -/
theorem Refines.accept_within (h : Refines w d D) (hlow : ∀ n < a, n ∈ D slot) {seq : U64} (hseq : (seq : Nat) < a + w) :
    ∃ d' r, d.accept slot seq = some (d', r) ∧ Refines w d' (D.add slot {(seq : Nat)}) ∧
      ((seq : Nat) ∉ D slot → r = .new) := by
  obtain ⟨s, r, D', hacc, hoff, href⟩ := h.accept slot (U64.le_max seq)
  have hbase := h.le_base hlow
  cases hoff with
  | new _ _ => exact ⟨_, .new, hacc, href, fun _ => rfl⟩
  | duplicate hmem _ =>
    have hD : D.add slot {(seq : Nat)} = D := by
      unfold Delivered.add
      rw [union_eq_self_of_subset_right (singleton_subset_iff.mpr hmem), update_eq_self]
    exact ⟨_, .duplicate, hacc, hD.symm ▸ href, fun hnot => absurd hmem hnot⟩
  | outOfWindow hout => omega

/-- Arrivals within a window of what is delivered are all delivered. -/
theorem Refines.acceptAll_within (h : Refines w d D) (hlow : ∀ n < a, n ∈ D slot)
    (seqs : List U64) (hseqs : ∀ seq ∈ seqs, (seq : Nat) < a + w) :
    ∃ d', d.acceptAll (seqs.map (slot, ·)) = some d' ∧ Refines w d' (D.add slot {n | ∃ seq ∈ seqs, (seq : Nat) = n}) := by
  induction seqs generalizing d D with
  | nil =>
    refine ⟨d, rfl, ?_⟩
    have hD : D.add slot {n | ∃ seq ∈ ([] : List U64), (seq : Nat) = n} = D := by simp
    rw [hD]
    exact h
  | cons seq rest ih =>
    obtain ⟨d₁, r, hacc, href, -⟩ := h.accept_within hlow (hseqs seq mem_cons_self)
    have hlow₁ : ∀ n < a, n ∈ D.add slot {(seq : Nat)} slot := by
      intro n hn
      rw [Delivered.add_self]
      exact .inl (hlow n hn)
    obtain ⟨d', hrun, href'⟩ := ih href hlow₁ fun s hs => hseqs s (mem_cons_of_mem _ hs)
    refine ⟨d', by simp [Dedup.acceptAll, hacc, hrun], ?_⟩
    have hD : (D.add slot {(seq : Nat)}).add slot {n | ∃ s ∈ rest, (s : Nat) = n} =
      D.add slot {n | ∃ s ∈ seq :: rest, (s : Nat) = n} := by
      rw [Delivered.add_add]
      congr 1
      ext n
      simp [eq_comm]
    rwa [hD] at href'

end Dedup

end RallyPoint.Transport
