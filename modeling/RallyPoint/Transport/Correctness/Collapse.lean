import Mathlib.Order.Interval.Finset.Nat
import RallyPoint.Transport.Correctness.Dedup

/-!
# `Transport.Correctness.Collapse` — offers to a dedup, strict or forward-collapsing

A strict dedup refuses a seq past its window; a forward-collapsing one slides its prefix up instead, and
the seqs it slides over count as delivered from then on.
-/

namespace RallyPoint.Transport

open Lib List Option Dedup

/-! ## A packet -/

namespace Dedup

variable {d d' : Dedup} {slot : SlotId} {p : Payload} {ps ps' kept : List Payload}

/-! ### The order of the packet -/

/-- Two packets name the same slots and seqs, in the same order. -/
def SameKeys (ps ps' : List Payload) : Prop := ps.map (fun p => (p.slot, p.seq)) = ps'.map (fun p => (p.slot, p.seq))

/-- The pass goes by slots and seqs alone. -/
theorem retainLoop_congr (hkeys : SameKeys ps ps') (d : Dedup) :
    ∃ d' failure kept kept', d.retainLoop ps = some (d', failure, kept) ∧ d.retainLoop ps' = some (d', failure, kept') ∧
      SameKeys kept kept' ∧ kept.Sublist ps := by
  induction ps generalizing ps' d with
  | nil =>
    obtain rfl : ps' = [] := map_eq_nil_iff.mp hkeys.symm
    exact ⟨d, none, [], [], rfl, rfl, rfl, .slnil⟩
  | cons p ps ih =>
    cases ps' with
    | nil => cases hkeys
    | cons q ps' =>
      obtain ⟨hkey, hrest⟩ := cons.inj hkeys
      obtain ⟨hslot, hseq⟩ := Prod.mk.inj hkey
      cases hp : SlotId.ofWire p.slot with
      | none =>
        refine ⟨d, some (.malformedSlot p.slot), [], [], retainLoop_malformed hp, ?_, rfl, nil_sublist _⟩
        rw [hslot] at hp ⊢
        exact retainLoop_malformed hp
      | some slot =>
        have hq : SlotId.ofWire q.slot = some slot := hslot ▸ hp
        obtain ⟨d₁, r, hacc⟩ := d.accept_total slot p.seq
        have hacc' : d.accept slot q.seq = some (d₁, r) := hseq ▸ hacc
        obtain ⟨d', failure, kept, kept', hloop, hloop', hsame, hsub⟩ := ih hrest d₁
        cases r with
        | new =>
          exact ⟨d', failure, _, _, retainLoop_new hp hacc hloop, retainLoop_new hq hacc' hloop', congr_arg₂ cons hkey hsame,
            hsub.cons_cons p⟩
        | duplicate =>
          exact ⟨d', failure, _, _, (retainLoop_duplicate hp hacc).trans hloop,
            (retainLoop_duplicate hq hacc').trans hloop', hsame,
            hsub.cons p⟩
        | outOfWindow =>
          refine ⟨d₁, some (.payloadOutOfWindow slot p.seq), [], [], retainLoop_outOfWindow hp hacc, ?_, rfl, nil_sublist _⟩
          rw [hseq]
          exact retainLoop_outOfWindow hq hacc'

/-- The order of the sorted packet. -/
def KeyLe (k k' : U32 × U64) : Prop := k.1 < k'.1 ∨ k.1 = k'.1 ∧ k.2 ≤ k'.2
deriving Decidable

theorem KeyLe.antisymm {k k' : U32 × U64} (h : KeyLe k k') (h' : KeyLe k' k) : k = k' := by
  rcases h with h | ⟨h, hle⟩
  · rcases h' with h' | ⟨h', -⟩
    · exact absurd h (lt_asymm h')
    · exact absurd h (h' ▸ lt_irrefl _)
  · rcases h' with h' | ⟨-, hle'⟩
    · exact absurd h' (h ▸ lt_irrefl _)
    · exact Prod.ext h (le_antisymm hle hle')

theorem sortPayloads_sorted (ps : List Payload) :
    (sortPayloads ps).Pairwise fun p q => KeyLe (p.slot, p.seq) (q.slot, q.seq) := by
  have htotal : Std.Total fun p q : Payload => KeyLe (p.slot, p.seq) (q.slot, q.seq) := by
    refine ⟨fun p q => ?_⟩
    rcases lt_trichotomy p.slot q.slot with h | h | h
    · exact .inl (.inl h)
    · exact (le_total p.seq q.seq).imp (fun hle => .inr ⟨h, hle⟩) fun hle => .inr ⟨h.symm, hle⟩
    · exact .inr (.inl h)
  have htrans : IsTrans Payload fun p q => KeyLe (p.slot, p.seq) (q.slot, q.seq) := by
    refine ⟨fun p q r hpq hqr => ?_⟩
    rcases hpq with hpq | ⟨hpq, hle⟩
    · rcases hqr with hqr | ⟨hqr, -⟩
      · exact .inl (lt_trans hpq hqr)
      · exact .inl (hqr ▸ hpq)
    · rcases hqr with hqr | ⟨hqr, hle'⟩
      · exact .inl (hpq ▸ hqr)
      · exact .inr ⟨hpq.trans hqr, le_trans hle hle'⟩
  exact @pairwise_insertionSort _ (fun p q => KeyLe (p.slot, p.seq) (q.slot, q.seq)) _ htotal htrans ps

/-- Sorted, the packets of the same payloads name the same slots and seqs. -/
theorem sameKeys_of_perm (h : ps.Perm ps') : SameKeys (sortPayloads ps) (sortPayloads ps') := by
  have hperm : (sortPayloads ps).Perm (sortPayloads ps') :=
    (perm_insertionSort _ ps).trans (h.trans (perm_insertionSort _ ps').symm)
  exact (hperm.map _).eq_of_pairwise (fun _ _ _ _ hle hle' => hle.antisymm hle')
    (pairwise_map.mpr (sortPayloads_sorted ps)) (pairwise_map.mpr (sortPayloads_sorted ps'))

/-! ### What is kept -/

/-- What the pass over a sorted packet keeps of it. -/
structure Kept (d : Dedup) (ps : List Payload) (failure : Option DedupError) (kept : List Payload) : Prop where
  sublist : kept.Sublist ps
  fresh : ∀ p ∈ kept, ∀ slot, SlotId.ofWire p.slot = some slot → (p.seq : Nat) ∉ (d.entry slot).delivered
  ascending : kept.Pairwise fun p q => p.slot < q.slot ∨ p.slot = q.slot ∧ p.seq < q.seq
  complete : failure = none → ∀ p ∈ ps, ∃ slot, SlotId.ofWire p.slot = some slot ∧
    ((p.seq : Nat) ∈ (d.entry slot).delivered ∨ ∃ q ∈ kept, q.slot = p.slot ∧ q.seq = p.seq)

theorem Kept.stop (e : DedupError) : Kept d ps (some e) [] := by
  refine ⟨nil_sublist _, ?_, .nil, ?_⟩
  · intro q hq
    cases hq
  · intro hnone
    cases hnone

section Offered

variable {failure : Option DedupError} (hslot : SlotId.ofWire p.slot = some slot)
include hslot

/-- A new payload is kept. It delivers what is a window below it, and no later payload of the packet is. -/
theorem Kept.new {s : SlotDedup} (hw : 0 < d.window) (hnot : (p.seq : Nat) ∉ (d.entry slot).delivered)
    (hdelivered : s.delivered = insert (p.seq : Nat) ({n | n + d.window ≤ p.seq} ∪ (d.entry slot).delivered))
    (hle : ∀ q ∈ ps, KeyLe (p.slot, p.seq) (q.slot, q.seq)) (hkept : Kept (d.setSlot slot s) ps failure kept) :
    Kept d (p :: ps) failure (p :: kept) := by
  have hentry : (d.setSlot slot s).entry slot = s := setSlot_self s
  have hgrow : ∀ slot', (d.entry slot').delivered ⊆ ((d.setSlot slot s).entry slot').delivered := by
    intro slot'
    by_cases hne : slot' = slot
    · subst hne
      rw [hentry, hdelivered]
      exact fun n hn => .inr (.inr hn)
    · rw [setSlot_of_ne s hne]
  refine ⟨hkept.sublist.cons_cons p, ?_, ?_, ?_⟩
  · intro q hq slot' hslot'
    rcases mem_cons.mp hq with rfl | hq
    · obtain rfl := some.inj (hslot.symm.trans hslot')
      exact hnot
    · exact fun hmem => hkept.fresh q hq slot' hslot' (hgrow slot' hmem)
  · refine pairwise_cons.mpr ⟨?_, hkept.ascending⟩
    intro q hq
    rcases hle q (hkept.sublist.subset hq) with hlt | ⟨heq, hseq⟩
    · exact .inl hlt
    · refine .inr ⟨heq, lt_of_le_of_ne hseq ?_⟩
      intro hsame
      refine hkept.fresh q hq slot ((show p.slot = q.slot from heq) ▸ hslot) ?_
      rw [hentry, hdelivered]
      exact .inl (congrArg _ hsame.symm)
  · intro hnone q hq
    rcases mem_cons.mp hq with rfl | hq
    · exact ⟨slot, hslot, .inr ⟨q, mem_cons_self, rfl, rfl⟩⟩
    obtain ⟨slot', hslot', hcase⟩ := hkept.complete hnone q hq
    refine ⟨slot', hslot', ?_⟩
    rcases hcase with hmem | ⟨q', hq', hkey⟩
    · by_cases hne : slot' = slot
      · subst hne
        have hwire : p.slot = q.slot := SlotId.ofWire_inj hslot hslot'
        rw [hentry, hdelivered] at hmem
        rcases hmem with hmem | hbelow | hmem
        · exact .inr ⟨p, mem_cons_self, hwire, Fin.ext hmem.symm⟩
        · have hseq : (p.seq : Nat) ≤ q.seq := by
            rcases hle q hq with hlt | ⟨-, hseq⟩
            · exact absurd hlt (hwire ▸ lt_irrefl _)
            · exact hseq
          have : (q.seq : Nat) + d.window ≤ p.seq := hbelow
          omega
        · exact .inl hmem
      · exact .inl (setSlot_of_ne s hne ▸ hmem)
    · exact .inr ⟨q', mem_cons_of_mem p hq', hkey⟩

/-- A duplicate is left out, and nothing else changes. -/
theorem Kept.duplicate (hmem : (p.seq : Nat) ∈ (d.entry slot).delivered)
    (hkept : Kept (d.setSlot slot (d.entry slot)) ps failure kept) : Kept d (p :: ps) failure kept := by
  have hsame : ∀ slot', (d.setSlot slot (d.entry slot)).entry slot' = d.entry slot' := by
    intro slot'
    by_cases hne : slot' = slot
    · rw [hne, setSlot_self]
    · exact setSlot_of_ne _ hne
  refine ⟨hkept.sublist.cons p, ?_, hkept.ascending, ?_⟩
  · intro q hq slot' hslot'
    exact hsame slot' ▸ hkept.fresh q hq slot' hslot'
  · intro hnone q hq
    rcases mem_cons.mp hq with rfl | hq
    · exact ⟨slot, hslot, .inl hmem⟩
    · obtain ⟨slot', hslot', hcase⟩ := hkept.complete hnone q hq
      exact ⟨slot', hslot', hsame slot' ▸ hcase⟩

end Offered

/-- **The pass keeps each payload that is not delivered, once.** -/
theorem Sound.retainLoop (h : d.Sound) (hsorted : ps.Pairwise fun p q => KeyLe (p.slot, p.seq) (q.slot, q.seq)) :
    ∃ d' failure kept, d.retainLoop ps = some (d', failure, kept) ∧ d'.Sound ∧ Kept d ps failure kept := by
  induction ps generalizing d with
  | nil =>
    refine ⟨d, none, [], rfl, h, .slnil, ?_, .nil, ?_⟩
    · intro p hp
      cases hp
    · intro _ p hp
      cases hp
  | cons p ps ih =>
    obtain ⟨hle, hsorted⟩ := pairwise_cons.mp hsorted
    cases hslot : SlotId.ofWire p.slot with
    | none => exact ⟨d, _, [], retainLoop_malformed hslot, h, .stop _⟩
    | some slot =>
      obtain ⟨s, r, hacc, hsound, haccepted⟩ := h.accept slot (U64.le_max p.seq)
      obtain ⟨d', failure, kept, hloop, hsound', hkept⟩ := ih hsound hsorted
      cases haccepted with
      | new hw hnot _ hdelivered =>
        exact ⟨d', failure, p :: kept, retainLoop_new hslot hacc hloop, hsound', .new hslot hw hnot hdelivered hle hkept⟩
      | duplicate hmem =>
        exact ⟨d', failure, kept, (retainLoop_duplicate hslot hacc).trans hloop, hsound', .duplicate hslot hmem hkept⟩
      | outOfWindow => exact ⟨_, _, [], retainLoop_outOfWindow hslot hacc, hsound, .stop _⟩

/-! ### Every dedup -/

/-- A dedup that collapses forward, of any window. -/
def collapsing (w : Nat) : Dedup := { withWindow w with forwardCollapse := true }

end Dedup

/-- The call marks a seq as delivered wherever it lies. -/
def DedupCall.seeds : DedupCall → Bool
  | .markDelivered .. => true
  | _ => false

namespace Dedup

/-- The dedups there are: strict ones after any calls, collapsing ones after any but `mark_delivered`. -/
inductive Reached : Dedup → Prop where
  | strict (w : Nat) : Reached (withWindow w)
  | collapsing {w : Nat} (hw : 0 < w) : Reached (collapsing w)
  | call {d d' : Dedup} {reply : DedupReply} (h : Reached d) (c : DedupCall)
      (hseeds : d.forwardCollapse = true → c.seeds = false)
      (hcall : d.call c = some (d', reply)) : Reached d'
  | retire {d : Dedup} (h : Reached d) (slot : SlotId) (throughSeq : Nat) :
      Reached (d.advanceRetiredThrough slot throughSeq).1

variable {d d' : Dedup} {slot : SlotId}

/-- A pristine entry is sound, in a window of one seq at least. -/
theorem pristine_sound {w : Nat} {collapse : Bool} (hw : collapse = true → 0 < w) : SlotDedup.pristine.Sound w collapse := by
  refine ⟨SlotDedup.pristine_good, fun hcollapse => ⟨hw hcollapse, ?_⟩⟩
  intro n hn
  cases hn

theorem Sound.call (h : d.Sound) {c : DedupCall} (hseeds : d.forwardCollapse = true → c.seeds = false) {reply : DedupReply}
    (hcall : d.call c = some (d', reply)) : d'.Sound := by
  cases c with
  | accept slot seq =>
    obtain ⟨s, r, hacc, hsound, -⟩ := h.accept slot (U64.le_max seq)
    simp only [Dedup.call, hacc, bind_eq_bind, bind_some] at hcall
    cases hcall
    exact hsound
  | markDelivered slot seq =>
    obtain ⟨s', heq, hgood, -⟩ := SlotDedup.markDelivered_spec (h slot).good (U64.le_max seq)
    simp only [Dedup.call, Dedup.markDelivered, heq, bind_eq_bind, bind_some] at hcall
    cases hcall
    refine h.setSlot ⟨hgood, ?_⟩
    intro hcollapse
    cases hseeds hcollapse
  | markDeliveredThrough slot through =>
    obtain ⟨hgood, hdelivered⟩ := SlotDedup.markDeliveredThrough_spec (h slot).good (U64.le_max through)
    cases hcall
    refine h.setSlot ((h slot).grow hgood (hdelivered ▸ Set.subset_union_left) ?_)
    refine (SlotDedup.absorbContiguousRun_ahead _).trans ?_
    rw [SlotDedup.aheadPast_eq (h slot).good]
    exact Finset.filter_subset _ _
  | anchor slot a =>
    cases hcall
    unfold anchor
    split
    · exact h
    · rename_i top htop
      have hle : top ≤ u64Max := by
        have := U64.le_max a
        unfold checkedSub at htop
        split at htop
        · have := some.inj htop
          omega
        · cases htop
      obtain ⟨hgood, hpristine, hkeep⟩ := SlotDedup.anchor_spec (h slot).good hle
      refine h.setSlot ((h slot).grow hgood ?_ ?_)
      · by_cases hempty : (d.entry slot).delivered = ∅
        · rw [hempty]
          exact Set.empty_subset _
        · rw [hkeep hempty]
      · unfold SlotDedup.anchor
        split <;> exact Finset.Subset.refl _
  | retainFreshPayloads ps =>
    rcases d.retainFreshPayloads_cases ps with ⟨d₁, kept, hloop, heq⟩ | ⟨d₁, e, kept, hloop, heq⟩
    · obtain ⟨d₂, failure, kept', hloop', hsound, -⟩ := h.retainLoop (sortPayloads_sorted ps)
      simp only [Dedup.call, heq, bind_eq_bind, bind_some] at hcall
      cases hcall
      cases hloop.symm.trans hloop'
      exact hsound
    · simp only [Dedup.call, heq, bind_eq_bind, bind_some] at hcall
      cases hcall
      exact h

theorem Reached.sound (h : d.Reached) : d.Sound := by
  induction h with
  | strict w => exact fun _ => pristine_sound fun hcollapse => by cases hcollapse
  | collapsing hw => exact fun _ => pristine_sound fun _ => hw
  | call _ c hseeds hcall ih => exact ih.call hseeds hcall
  | @retire d _ slot throughSeq ih =>
    have hslots : (d.advanceRetiredThrough slot throughSeq).1.slots = d.slots ∧
        (d.advanceRetiredThrough slot throughSeq).1.window = d.window ∧
        (d.advanceRetiredThrough slot throughSeq).1.forwardCollapse = d.forwardCollapse := by
      unfold advanceRetiredThrough
      split <;> exact ⟨rfl, rfl, rfl⟩
    intro slot'
    unfold entry
    rw [hslots.1, hslots.2.1, hslots.2.2]
    exact ih slot'

/-- **A packet is taken whole or not at all, in any order.** For every dedup, a refused packet leaves it
    as it was, what is kept is in ascending order, and the verdict, the state afterwards and the slots
    and seqs kept do not depend on the order of the packet. For the dedups there are, a packet that is
    taken leaves exactly the payloads that were not delivered, each slot and seq once. -/
theorem retain_fresh_payloads_atomic (d : Dedup) (ps : List Payload) :
    ∃ d' result, d.retainFreshPayloads ps = some (d', result) ∧ (∀ e, result = .error e → d' = d) ∧
      (∀ kept, result = .ok kept → kept.Sublist (sortPayloads ps) ∧
        kept.Pairwise fun p q => KeyLe (p.slot, p.seq) (q.slot, q.seq)) ∧
      (∀ ps', ps.Perm ps' → ∃ result', d.retainFreshPayloads ps' = some (d', result') ∧
        ((∃ e, result = .error e ∧ result' = .error e) ∨
          ∃ kept kept', result = .ok kept ∧ result' = .ok kept' ∧ SameKeys kept kept')) ∧
      (d.Reached → ∀ kept, result = .ok kept →
        (kept.Pairwise fun p q => p.slot < q.slot ∨ p.slot = q.slot ∧ p.seq < q.seq) ∧
        ∀ p ∈ ps, ∃ slot, SlotId.ofWire p.slot = some slot ∧
          ((p.seq : Nat) ∉ (d.entry slot).delivered ↔ ∃ q ∈ kept, q.slot = p.slot ∧ q.seq = p.seq)) := by
  have hperm := fun ps' (h : ps.Perm ps') => retainLoop_congr (sameKeys_of_perm h) d
  rcases d.retainFreshPayloads_cases ps with ⟨d', kept, hloop, heq⟩ | ⟨d₁, e, kept, hloop, heq⟩
  · refine ⟨d', .ok kept, heq, ?_, ?_, ?_, ?_⟩
    · intro e he
      cases he
    · rintro kept' ⟨⟩
      obtain ⟨d₂, failure, kept₁, kept₂, h₁, -, -, hsub⟩ := hperm ps (.refl ps)
      cases hloop.symm.trans h₁
      exact ⟨hsub, (sortPayloads_sorted ps).sublist hsub⟩
    · intro ps' h
      obtain ⟨d₂, failure, kept₁, kept₂, h₁, h₂, hsame, -⟩ := hperm ps' h
      cases hloop.symm.trans h₁
      rcases d.retainFreshPayloads_cases ps' with ⟨d₃, kept₃, h₃, heq'⟩ | ⟨d₃, e, kept₃, h₃, heq'⟩
      · cases h₂.symm.trans h₃
        exact ⟨_, heq', .inr ⟨_, _, rfl, rfl, hsame⟩⟩
      · cases h₂.symm.trans h₃
    · intro hreached kept' hkept'
      cases hkept'
      obtain ⟨d₂, failure, kept₂, h₂, -, hkept⟩ := hreached.sound.retainLoop (sortPayloads_sorted ps)
      cases hloop.symm.trans h₂
      refine ⟨hkept.ascending, ?_⟩
      intro p hp
      obtain ⟨slot, hslot, hcase⟩ := hkept.complete rfl p ((mem_insertionSort _).mpr hp)
      refine ⟨slot, hslot, fun hnot => hcase.resolve_left hnot, ?_⟩
      rintro ⟨q, hq, hqslot, hqseq⟩
      rw [← hqseq]
      exact hkept.fresh q hq slot (hqslot ▸ hslot)
  · refine ⟨d, .error e, heq, fun _ _ => rfl, ?_, ?_, ?_⟩
    · intro kept' hkept'
      cases hkept'
    · intro ps' h
      obtain ⟨d₂, failure, kept₁, kept₂, h₁, h₂, -⟩ := hperm ps' h
      cases hloop.symm.trans h₁
      rcases d.retainFreshPayloads_cases ps' with ⟨d₃, kept₃, h₃, heq'⟩ | ⟨d₃, e', kept₃, h₃, heq'⟩
      · cases h₂.symm.trans h₃
      · cases h₂.symm.trans h₃
        exact ⟨_, heq', .inl ⟨e, rfl, rfl⟩⟩
    · intro _ kept' hkept'
      cases hkept'

/-- A packet that leads with its highest seq, as a collapsing dedup takes it. -/
theorem retain_fresh_payloads_reordered : ∃ d' kept,
    (collapsing 4).retainFreshPayloads [⟨1, 0, [], none, none, none, none⟩,
      ⟨0, 0, [], none, none, none, none⟩] = some (d', .ok kept) ∧
      ∀ p ∈ kept, (p.seq : Nat) ∉ ((collapsing 4).entry 0).delivered := by
  obtain ⟨d', result, heq, -, hsorted, -, hkept⟩ := retain_fresh_payloads_atomic (collapsing 4)
    [⟨1, 0, [], none, none, none, none⟩, ⟨0, 0, [], none, none, none, none⟩]
  obtain ⟨kept, rfl⟩ : ∃ kept, result = .ok kept := by
    cases heq
    exact ⟨_, rfl⟩
  obtain ⟨-, hfresh⟩ := hkept (.collapsing (by decide)) kept rfl
  refine ⟨d', kept, heq, ?_⟩
  intro p hp
  have hmem : p ∈ [_, _] := (mem_insertionSort _).mp ((hsorted kept rfl).1.subset hp)
  obtain ⟨slot, hslot, hiff⟩ := hfresh p hmem
  have hzero : slot = 0 := by
    rcases mem_pair.mp hmem with rfl | rfl <;> exact (some.inj hslot).symm
  exact hzero ▸ hiff.mpr ⟨p, hp, rfl, rfl⟩

/-- Seqs marked as delivered one after the other. -/
def markAll (d : Dedup) (slot : SlotId) (seqs : List Nat) : Option Dedup :=
  seqs.foldlM (fun d seq => d.markDelivered slot seq) d

/-- A dedup that had the seqs from 1 on marked waits for seq 0. -/
theorem markAll_range (w n : Nat) :
    (collapsing w).markAll 0 (List.range' 1 (n + 1)) = some ((collapsing w).setSlot 0 ⟨none, Finset.Icc 1 (n + 1)⟩) := by
  induction n with
  | zero => rfl
  | succ n ih =>
    have hmark : ((collapsing w).setSlot 0 ⟨none, Finset.Icc 1 (n + 1)⟩).markDelivered 0 (n + 2) =
        some ((collapsing w).setSlot 0 ⟨none, insert (n + 2) (Finset.Icc 1 (n + 1))⟩) := by
      unfold Dedup.markDelivered
      rw [setSlot_self]
      simp [SlotDedup.markDelivered, setSlot]
    have hicc : insert (n + 2) (Finset.Icc 1 (n + 1)) = Finset.Icc 1 (n + 2) := by
      ext m
      simp only [Finset.mem_insert, Finset.mem_Icc]
      omega
    unfold markAll at ih ⊢
    rw [range'_concat, foldlM_append, ih]
    simp only [bind_eq_bind, bind_some, foldlM_cons, foldlM_nil, Nat.one_mul]
    rw [show 1 + (n + 1) = n + 2 by omega, hmark, hicc]
    rfl

/-- The collapse that lets the last of those seqs in absorbs it; it is then inserted as if new. -/
theorem accept_marked {w : Nat} (hw : w ≤ u64Max) (hpos : 0 < w) :
    ∃ s, SlotDedup.accept w true ⟨none, Finset.Icc 1 w⟩ w = some (s, .new) := by
  have hgood : SlotDedup.Good ⟨none, Finset.Icc 1 w⟩ := by
    refine ⟨fun n hn => (Finset.mem_Icc.mp hn).1, ?_⟩
    rintro n (hn | hn)
    · cases hn
    · exact le_trans (Finset.mem_Icc.mp hn).2 hw
  have hbase : SlotDedup.base ⟨none, Finset.Icc 1 w⟩ = 0 := rfl
  obtain ⟨hgood', hdelivered⟩ := SlotDedup.raise_spec hgood (show SlotDedup.base ⟨none, Finset.Icc 1 w⟩ ≤
    0 + 1 by omega) (Nat.zero_le _)
  rw [SlotDedup.accept_eq hw (Nat.zero_le _), if_neg (by rw [hbase]; omega),
    if_pos (by rw [hbase]; omega), if_pos rfl, Nat.sub_self]
  set c := SlotDedup.absorbContiguousRun ⟨some 0, (Finset.Icc 1 w).filter (0 < ·)⟩ with hc
  -- everything up to the seq is delivered, so it lies in the prefix
  have hlow : w < c.base := by
    by_contra hge
    refine PrefixSet.base_not_mem hgood'.canonical ?_
    show c.base ∈ c.delivered
    rw [hdelivered]
    rcases Nat.eq_zero_or_pos c.base with h | h
    · exact .inl (le_of_eq h)
    · exact .inr (.inr (Finset.mem_Icc.mpr ⟨h, not_lt.mp hge⟩))
  have hnot : w ∉ c.ahead := fun hmem => absurd (hgood'.canonical w hmem) (not_lt.mpr (le_of_lt hlow))
  exact ⟨_, by rw [SlotDedup.insertAhead, if_neg hnot]⟩

/-- **A collapsing dedup can hand a payload on twice**: with the seqs 1 to 4096 marked as delivered, and
    not seq 0, it keeps the payload of seq 4096. -/
theorem retain_fresh_payloads_repeats_marked :
    ∃ d, withForwardCollapse.markAll 0 (List.range' 1 4096) = some d ∧ 4096 ∈ (d.entry 0).delivered ∧
      ∃ d', d.retainFreshPayloads [⟨4096, 0, [], none, none, none, none⟩] =
        some (d', .ok [⟨4096, 0, [], none, none, none, none⟩]) := by
  refine ⟨_, markAll_range 4096 4095, ?_, ?_⟩
  · rw [setSlot_self]
    exact .inr (Finset.mem_Icc.mpr ⟨by decide, le_rfl⟩)
  · obtain ⟨s, hs⟩ := accept_marked (w := 4096) (by decide) (by decide)
    set d := (collapsing 4096).setSlot 0 ⟨none, Finset.Icc 1 4096⟩ with hd
    have haccept : d.accept 0 4096 = some (d.setSlot 0 s, .new) := by
      unfold accept
      rw [hd, setSlot_self]
      show (SlotDedup.accept 4096 true ⟨none, Finset.Icc 1 4096⟩ 4096).bind _ = _
      rw [hs]
      rfl
    refine ⟨d.setSlot 0 s, ?_⟩
    have hloop : d.retainLoop [⟨4096, 0, [], none, none, none, none⟩] =
        some (d.setSlot 0 s, none, [⟨4096, 0, [], none, none, none, none⟩]) :=
      retainLoop_new rfl haccept rfl
    rcases d.retainFreshPayloads_cases [⟨4096, 0, [], none, none, none, none⟩]
      with ⟨d₁, kept, h₁, heq⟩ | ⟨d₁, e, kept, h₁, heq⟩
    · cases hloop.symm.trans h₁
      exact heq
    · cases hloop.symm.trans h₁

/-! ## A collapsing run -/

/-- An offer with its answer. -/
abbrev Answer := SlotId × U64 × Delivery

/-- Payloads offered one after the other, with the answers. -/
def offerAll : Dedup → List (SlotId × U64) → Option (Dedup × List Answer)
  | d, [] => some (d, [])
  | d, offer :: rest => do
      let (d', r) ← d.accept offer.1 offer.2
      let (d'', log) ← offerAll d' rest
      some (d'', (offer.1, offer.2, r) :: log)

/-- What a slot of a collapsing dedup has delivered, by the answers so far: what lies below the anchor,
    was new, or lies a window or more below that. -/
structure Collapsing (w : Nat) (slot : SlotId) (anchor : Nat) (d : Dedup) (past : List Answer) : Prop where
  window : d.window = w
  collapse : d.forwardCollapse = true
  sound : d.Sound
  delivered : ∀ n, n ∈ (d.entry slot).delivered ↔
    n < anchor ∨ ∃ seq : U64, (slot, seq, .new) ∈ past ∧ (n = (seq : Nat) ∨ n + w ≤ (seq : Nat))

theorem Collapsing.start {w : Nat} (hw : 0 < w) (slot : SlotId) (a : U64) :
    Collapsing w slot a ((collapsing w).anchor slot a) [] := by
  have hnew : (collapsing w).Sound := fun _ => pristine_sound fun _ => hw
  have hcall : (collapsing w).call (.anchor slot a) = some ((collapsing w).anchor slot a, .done) := rfl
  have hsame : ((collapsing w).anchor slot a).window = w ∧ ((collapsing w).anchor slot a).forwardCollapse = true := by
    unfold anchor
    split <;> exact ⟨rfl, rfl⟩
  refine ⟨hsame.1, hsame.2, hnew.call (fun _ => rfl) hcall, ?_⟩
  intro n
  simp only [not_mem_nil, false_and, exists_const, or_false]
  by_cases hpos : 1 ≤ (a : Nat)
  · have hentry : ((collapsing w).anchor slot a).entry slot = SlotDedup.pristine.anchor ((a : Nat) - 1) := by
      rw [anchor, checkedSub_of_le hpos]
      exact setSlot_self _
    have hle : (a : Nat) - 1 ≤ u64Max := le_trans (Nat.sub_le _ _) (U64.le_max a)
    rw [hentry, (SlotDedup.anchor_spec SlotDedup.pristine_good hle).2.1 SlotDedup.pristine_delivered]
    show n ≤ (a : Nat) - 1 ↔ n < a
    omega
  · have hzero : (a : Nat) = 0 := by omega
    have hentry : ((collapsing w).anchor slot a).entry slot = SlotDedup.pristine := by
      rw [anchor, hzero]
      rfl
    rw [hentry, SlotDedup.pristine_delivered, hzero]
    simp

variable {w anchor : Nat} {past : List Answer}

/-- One offer to a collapsing dedup. -/
theorem Collapsing.accept (h : Collapsing w slot anchor d past) (slot' : SlotId) (seq : U64) :
    ∃ d' r, d.accept slot' seq = some (d', r) ∧ Collapsing w slot anchor d' (past ++ [(slot', seq, r)]) ∧ r ≠ .outOfWindow ∧
      (r = .new → slot' = slot → (seq : Nat) ∉ (d.entry slot).delivered) ∧
      (r = .duplicate → slot' = slot → (seq : Nat) ∈ (d.entry slot).delivered) ∧
        (d.entry slot).base ≤ (d'.entry slot).base := by
  obtain ⟨s, r, hacc, hsound, haccepted⟩ := h.sound.accept slot' (U64.le_max seq)
  by_cases hslot : slot' = slot
  · subst hslot
    have hentry : (d.setSlot slot' s).entry slot' = s := setSlot_self s
    cases haccepted with
    | new hw hnot _ hdelivered =>
      have hgrow : (d.entry slot').delivered ⊆ ((d.setSlot slot' s).entry slot').delivered := by
        rw [hentry, hdelivered]
        exact fun n hn => .inr (.inr hn)
      refine ⟨_, .new, hacc, ⟨h.window, h.collapse, hsound, ?_⟩, by simp, fun _ _ => hnot, by simp,
        SlotDedup.base_mono (hsound slot').good hgrow⟩
      intro n
      have hpast := h.delivered n
      rw [hentry, hdelivered, h.window]
      simp only [Set.mem_insert_iff, Set.mem_union, Set.mem_ofPred_eq, mem_append, mem_singleton, Prod.mk.injEq,
        true_and, and_true, or_and_right, exists_or, exists_eq_left, hpast]
      constructor
      · rintro (hn | hn | hn | hn)
        · exact .inr (.inr (.inl hn))
        · exact .inr (.inr (.inr hn))
        · exact .inl hn
        · exact .inr (.inl hn)
      · rintro (hn | hn | hn | hn)
        · exact .inr (.inr (.inl hn))
        · exact .inr (.inr (.inr hn))
        · exact .inl hn
        · exact .inr (.inl hn)
    | duplicate hmem =>
      refine ⟨_, .duplicate, hacc, ⟨h.window, h.collapse, hsound, ?_⟩, by simp, by simp, fun _ _ => hmem, by rw [hentry]⟩
      intro n
      rw [hentry, h.delivered n]
      simp
    | outOfWindow hstrict => cases h.collapse.symm.trans hstrict
  · have hsame : (d.setSlot slot' s).entry slot = d.entry slot := setSlot_of_ne s fun heq => hslot heq.symm
    have hwhole : r ≠ .outOfWindow := by
      rintro rfl
      cases haccepted with
      | outOfWindow hstrict => cases h.collapse.symm.trans hstrict
    refine ⟨_, r, hacc, ⟨h.window, h.collapse, hsound, ?_⟩, hwhole, fun _ heq => absurd heq hslot,
      fun _ heq => absurd heq hslot,
      hsame ▸ le_rfl⟩
    intro n
    have hne : ¬ slot = slot' := fun heq => hslot heq.symm
    rw [hsame, h.delivered n]
    simp [hne]

/-- **What the answers of a run say**, over a past of other answers. -/
theorem Collapsing.offerAll (h : Collapsing w slot anchor d past) (offers : List (SlotId × U64)) :
    ∃ d' log, d.offerAll offers = some (d', log) ∧ Collapsing w slot anchor d' (past ++ log) ∧
      log.map (fun a => (a.1, a.2.1)) = offers ∧ (∀ a ∈ log, a.2.2 ≠ .outOfWindow) ∧
      (∀ (before : List Answer) (seq : U64) (after : List Answer), log = before ++
        (slot, seq, .new) :: after → (slot, seq, .new) ∉ past ++ before) ∧
      ∀ (before : List Answer) (seq : U64) (after : List Answer), log = before ++ (slot, seq, .duplicate) :: after →
        (seq : Nat) < anchor ∨ ∃ top : U64, (slot, top, .new) ∈ past ++ before ∧
          ((seq : Nat) = top ∨ (seq : Nat) + w ≤ top) := by
  induction offers generalizing d past with
  | nil =>
    refine ⟨d, [], rfl, by rwa [append_nil], rfl, ?_, ?_, ?_⟩
    · intro a ha
      cases ha
    · intro before seq after hlog
      cases before <;> cases hlog
    · intro before seq after hlog
      cases before <;> cases hlog
  | cons offer rest ih =>
    obtain ⟨d₁, r, hacc, h₁, hwhole, hnew, hdup, -⟩ := h.accept offer.1 offer.2
    obtain ⟨d', log, hrun, hafter, hoffers, hnever, honce, hwhy⟩ := ih h₁
    refine ⟨d', (offer.1, offer.2, r) :: log, ?_, ?_, ?_, ?_, ?_, ?_⟩
    · simp [offerAll, hacc, hrun]
    · rwa [append_assoc] at hafter
    · rw [map_cons, hoffers]
    · intro a ha
      rcases mem_cons.mp ha with rfl | ha
      · exact hwhole
      · exact hnever a ha
    · intro before seq after hlog hmem
      cases before with
      | nil =>
        obtain ⟨hhead, -⟩ := cons.inj hlog
        obtain ⟨hslot, hseq, hr⟩ : offer.1 = slot ∧ offer.2 = seq ∧ r = .new := by simpa using hhead
        rw [append_nil] at hmem
        exact hnew hr hslot ((h.delivered _).mpr (.inr ⟨seq, hmem, .inl (by rw [hseq])⟩))
      | cons a before =>
        obtain ⟨rfl, htail⟩ := cons.inj hlog
        refine honce before seq after htail ?_
        rwa [append_assoc]
    · intro before seq after hlog
      cases before with
      | nil =>
        obtain ⟨hhead, -⟩ := cons.inj hlog
        obtain ⟨hslot, hseq, hr⟩ : offer.1 = slot ∧ offer.2 = seq ∧ r = .duplicate := by simpa using hhead
        rw [append_nil, ← hseq]
        exact (h.delivered _).mp (hdup hr hslot)
      | cons a before =>
        obtain ⟨rfl, htail⟩ := cons.inj hlog
        have hcase := hwhy before seq after htail
        rwa [append_assoc] at hcase

/-- The sparse seqs of a slot lie inside the window above the prefix. -/
theorem Collapsing.ahead (h : Collapsing w slot anchor d past) :
    (d.entry slot).ahead.card ≤ w ∧ ∀ n ∈ (d.entry slot).ahead, (d.entry slot).base < n ∧ n < (d.entry slot).base + w := by
  have hrange : ∀ n ∈ (d.entry slot).ahead, (d.entry slot).base < n ∧ n < (d.entry slot).base + w := by
    intro n hn
    have hfits := ((h.sound slot).fits h.collapse).2 n hn
    rw [h.window] at hfits
    exact ⟨(h.sound slot).good.canonical n hn, hfits⟩
  refine ⟨?_, hrange⟩
  calc (d.entry slot).ahead.card
      ≤ (Finset.Ico (d.entry slot).base ((d.entry slot).base + w)).card := by
        refine Finset.card_le_card ?_
        intro n hn
        exact Finset.mem_Ico.mpr ⟨le_of_lt (hrange n hn).1, (hrange n hn).2⟩
    _ = w := by simp

/-- **A collapsing dedup stays sound and bounded.** From a pristine slot (an anchor of 0) or an anchored
    one, for every run of offers: none is refused, each seq is new at most once, and a duplicate was new
    before, lies below the anchor, or lies a window or more below a seq that was new before; the prefix
    never moves back; and the sparse seqs are at most a window of them, above the prefix and no more than
    a window above it. -/
theorem collapsing_dedup_sound {w : Nat} (hw : 0 < w) (slot : SlotId) (anchor : U64) (offers : List (SlotId × U64)) :
    ∃ d log, ((collapsing w).anchor slot anchor).offerAll offers = some (d, log) ∧ log.map (fun a => (a.1, a.2.1)) = offers ∧
      (∀ a ∈ log, a.2.2 ≠ .outOfWindow) ∧
      (∀ (before : List Answer) (seq : U64) (after : List Answer), log = before ++
        (slot, seq, .new) :: after → (slot, seq, .new) ∉ before) ∧
      (∀ (before : List Answer) (seq : U64) (after : List Answer), log = before ++ (slot, seq, .duplicate) :: after →
        (slot, seq, .new) ∈ before ∨ seq < anchor ∨ ∃ top : U64, (slot, top, .new) ∈ before ∧ (seq : Nat) + w ≤ top) ∧
      (∀ (offer : SlotId × U64) d' r, d.accept offer.1 offer.2 = some (d', r) → ∀ t, d.deliveredThrough slot = some t →
        ∃ t', d'.deliveredThrough slot = some t' ∧ t ≤ t') ∧
      (d.entry slot).ahead.card ≤ w ∧
      ∀ n ∈ (d.entry slot).ahead, (d.deliveredThrough slot = none → n < w) ∧ ∀ t,
        d.deliveredThrough slot = some t → t < n ∧ n ≤ t + w := by
  obtain ⟨d, log, hrun, h, hoffers, hnever, honce, hwhy⟩ := (Collapsing.start hw slot anchor).offerAll offers
  have hbase : ∀ (d : Dedup) t, d.deliveredThrough slot = some t ↔ (d.entry slot).base = t + 1 := by
    intro d t
    rw [deliveredThrough_eq_entry, show (d.entry slot).deliveredThrough = _ from PrefixSet.top_eq (s := (d.entry slot).seqs)]
    show (if (d.entry slot).base = 0 then none else some ((d.entry slot).base - 1)) = some t ↔ _
    split
    · simp; omega
    · simp; omega
  refine ⟨d, log, hrun, hoffers, hnever, ?_, ?_, ?_, h.ahead.1, ?_⟩
  · intro before seq after hlog
    exact honce before seq after hlog
  · intro before seq after hlog
    rcases hwhy before seq after hlog with hlow | ⟨top, hmem, heq | hbelow⟩
    · exact .inr (.inl hlow)
    · exact .inl (Fin.ext heq ▸ hmem)
    · exact .inr (.inr ⟨top, hmem, hbelow⟩)
  · intro offer d' r hacc t ht
    obtain ⟨d'', r', hacc', -, -, -, -, hmono⟩ := h.accept offer.1 offer.2
    cases hacc.symm.trans hacc'
    have hb := (hbase d t).mp ht
    exact ⟨(d'.entry slot).base - 1, (hbase d' _).mpr (by omega), by omega⟩
  · intro n hn
    obtain ⟨hlow, hhigh⟩ := h.ahead.2 n hn
    refine ⟨?_, ?_⟩
    · intro hnone
      have hzero : (d.entry slot).base = 0 := by
        rw [deliveredThrough_eq_entry] at hnone
        exact PrefixSet.base_eq_zero.mpr hnone
      omega
    · intro t ht
      have hb := (hbase d t).mp ht
      omega

/-- A live seq past the window of 4 comes first, and a delayed one from inside it is still new. -/
theorem collapsing_dedup_keeps_delayed : 0 < 4 ∧ ∃ d log,
    ((collapsing 4).anchor 0 0).offerAll [(0, 9), (0, 6), (0, 9), (0, 5)] = some (d, log) ∧
      ∀ a ∈ log, a.2.2 ≠ .outOfWindow := by
  obtain ⟨d, log, hrun, -, hnever, -⟩ := collapsing_dedup_sound (w := 4) (by decide) 0 0 [(0, 9), (0, 6), (0, 9), (0, 5)]
  exact ⟨by decide, d, log, hrun, hnever⟩

end Dedup

end RallyPoint.Transport
