import Mathlib.Data.Finset.Max
import RallyPoint.Lib.Word

/-!
# `Lib.PrefixSet` — a set of numbers kept as a gap-free run and a sparse rest

A `PrefixSet` stores a set of naturals as the top of the run `0, 1, …, top` it starts with (`none` when
`0` is missing) and the finite set `ahead` of the members above that run. The stored pair is
**canonical** when nothing in `ahead` touches the run, so that `base`, the number right above the run, is
the least number missing from the set.

All operations take a *ceiling*: the numbers are bounded machine words, the successor of the ceiling does
not exist, and `absorb` stops there instead of wrapping.

- `base_isLeast`: the base of a canonical set is its least non-member.
- `absorb` folds the run right above the prefix into it: the set stays, and the result is canonical.
- `advance` (extend the run by its base), `put` (a member above it), `raise` (extend the run through a
  number), each with its membership and its canonicity lemma.
-/

namespace Lib

open Finset

/-- A set of naturals as the top of its gap-free initial run and its members above that run. -/
structure PrefixSet where
  top : Option Nat
  ahead : Finset Nat

namespace PrefixSet

/-- The empty set. -/
def empty : PrefixSet := ⟨none, ∅⟩

/-- The number right above the gap-free run. -/
def base (s : PrefixSet) : Nat :=
  match s.top with
  | none => 0
  | some t => t + 1

/-- The set that is stored. -/
def mem (s : PrefixSet) : Set Nat := fun n => n < s.base ∨ n ∈ s.ahead

/-- Nothing in `ahead` lies in the run or touches it. -/
def Canonical (s : PrefixSet) : Prop := ∀ n ∈ s.ahead, s.base < n

/-- Every member is at most `ceil`. -/
def Within (ceil : Nat) (s : PrefixSet) : Prop := ∀ n ∈ s.mem, n ≤ ceil

variable {s : PrefixSet} {ceil : Nat}

variable {n : Nat} {t : Nat}

@[simp] theorem mem_iff : n ∈ s.mem ↔ n < s.base ∨ n ∈ s.ahead := Iff.rfl

@[simp] theorem base_none (a : Finset Nat) : base ⟨none, a⟩ = 0 := rfl

@[simp] theorem base_some (t : Nat) (a : Finset Nat) : base ⟨some t, a⟩ = t + 1 := rfl

theorem base_eq_zero : s.base = 0 ↔ s.top = none := by
  rcases s with ⟨_ | t, a⟩ <;> simp

theorem top_eq : s.top = if s.base = 0 then none else some (s.base - 1) := by
  rcases s with ⟨_ | t, a⟩ <;> simp

theorem top_any_iff : s.top.any (n ≤ ·) = true ↔ n < s.base := by
  rcases s with ⟨_ | t, a⟩
  · simp
  · exact decide_eq_true_iff.trans Nat.lt_succ_iff.symm

/-- Below a number within the ceiling the top of the run has a successor. -/
theorem checkedBase_eq (hn : n ≤ ceil) (hlow : s.base ≤ n) :
    s.top.elim (some 0) (checkedAdd ceil · 1) = some s.base := by
  rcases s with ⟨_ | t, a⟩
  · rfl
  · exact checkedAdd_of_le (le_trans hlow hn)

theorem empty_mem : empty.mem = ∅ := by
  ext n; simp [empty]

theorem empty_canonical : Canonical empty := by simp [Canonical, empty]

theorem empty_within (ceil : Nat) : Within ceil empty := by simp [Within, empty]

/-- A member is never the base of a canonical set. -/
theorem base_not_mem (hs : s.Canonical) : s.base ∉ s.mem := by
  rintro (h | h)
  · omega
  · exact absurd (hs _ h) (by omega)

/-- **The base of a canonical set is the least number missing from it.** -/
theorem base_isLeast (hs : s.Canonical) : IsLeast s.memᶜ s.base := by
  refine ⟨base_not_mem hs, ?_⟩
  intro n hn
  by_contra hlt
  exact hn (.inl (not_le.mp hlt))

/-- A canonical set is empty exactly when both of its parts are. -/
theorem mem_eq_empty : s.mem = ∅ ↔ s.top = none ∧ s.ahead = ∅ := by
  constructor
  · intro h
    have h0 : s.base = 0 := by
      by_contra hb
      have : s.base - 1 ∈ s.mem := .inl (by omega)
      rw [h] at this
      exact this
    refine ⟨base_eq_zero.mp h0, eq_empty_of_forall_notMem ?_⟩
    intro n hn
    have : n ∈ s.mem := .inr hn
    rw [h] at this
    exact this
  · rintro ⟨ht, ha⟩
    ext n
    simp [base_eq_zero.mpr ht, ha]

/-! ## Absorbing the run above the prefix -/

/-- The loop of `absorb`: while `next` is waiting in `ahead`, move it into the run. -/
def absorbFrom (ceil : Nat) : Nat → Nat → PrefixSet → PrefixSet
  | 0, _, s => s
  | fuel + 1, next, s =>
    if next ∈ s.ahead then
      let s' : PrefixSet := ⟨some next, s.ahead.erase next⟩
      if next < ceil then absorbFrom ceil fuel (next + 1) s' else s'
    else s

/-- Fold the members right above the run into it, stopping at the ceiling. Each round takes one element
    out of `ahead`, so its size is enough fuel. -/
def absorb (ceil : Nat) (s : PrefixSet) : PrefixSet :=
  match s.top with
  | some t => if t < ceil then absorbFrom ceil s.ahead.card (t + 1) s else s
  | none => absorbFrom ceil s.ahead.card 0 s

/-- What the loop keeps and reaches, from the base of a set whose sparse part lies at or above it. -/
theorem absorbFrom_spec : ∀ (fuel : Nat) (s : PrefixSet), s.ahead.card ≤ fuel →
    (∀ n ∈ s.ahead, s.base ≤ n) → (∀ n ∈ s.ahead, n ≤ ceil) →
    (absorbFrom ceil fuel s.base s).mem = s.mem ∧ (absorbFrom ceil fuel s.base s).Canonical := by
  intro fuel
  induction fuel with
  | zero =>
    intro s hcard _ _
    have ha : s.ahead = ∅ := card_eq_zero.mp (Nat.le_zero.mp hcard)
    exact ⟨rfl, by simp [absorbFrom, Canonical, ha]⟩
  | succ fuel ih =>
    intro s hcard hlow hceil
    unfold absorbFrom
    by_cases hb : s.base ∈ s.ahead
    · simp only [hb, if_true]
      -- the set with its base moved into the run: the same members, one fewer of them sparse
      set s' : PrefixSet := ⟨some s.base, s.ahead.erase s.base⟩ with hs'
      have hmem : s'.mem = s.mem := by
        ext n
        simp only [hs', mem_iff, base_some, mem_erase]
        constructor
        · rintro (h | ⟨_, h⟩)
          · rcases Nat.lt_succ_iff_lt_or_eq.mp h with h | h
            · exact .inl h
            · exact .inr (h ▸ hb)
          · exact .inr h
        · rintro (h | h)
          · exact .inl (by omega)
          · by_cases hn : n = s.base
            · exact .inl (by omega)
            · exact .inr ⟨hn, h⟩
      have hlow' : ∀ n ∈ s'.ahead, s'.base ≤ n := by
        intro n hn
        have hne := ne_of_mem_erase hn
        have := hlow n (mem_of_mem_erase hn)
        simp only [hs', base_some]
        omega
      have hceil' : ∀ n ∈ s'.ahead, n ≤ ceil := fun n hn => hceil n (mem_of_mem_erase hn)
      by_cases hlt : s.base < ceil
      · have hcard' : s'.ahead.card ≤ fuel := by
          have := card_erase_of_mem hb
          simp only [hs']
          omega
        simp only [hlt, if_true]
        have := ih s' hcard' hlow' hceil'
        simp only [hs', base_some] at this ⊢
        exact ⟨this.1.trans hmem, this.2⟩
      · -- the base was the ceiling: nothing can wait above it
        simp only [hlt, if_false]
        refine ⟨hmem, ?_⟩
        intro n hn
        have h1 := hlow' n hn
        have h2 := hceil' n hn
        simp only [hs', base_some] at h1 ⊢
        omega
    · simp only [hb, if_false, true_and]
      intro n hn
      have := hlow n hn
      exact lt_of_le_of_ne this (fun h => hb (h ▸ hn))

section Absorb

variable (hlow : ∀ n ∈ s.ahead, s.base ≤ n)
include hlow

/-- `absorb` from a set whose sparse part lies at or above its base keeps the set and makes it
    canonical. -/
theorem absorb_spec (hin : s.Within ceil) : (s.absorb ceil).mem = s.mem ∧ (s.absorb ceil).Canonical := by
  have hceil : ∀ n ∈ s.ahead, n ≤ ceil := fun n hn => hin n (.inr hn)
  rcases s with ⟨_ | t, a⟩
  · exact absorbFrom_spec a.card ⟨none, a⟩ le_rfl hlow hceil
  · by_cases ht : t < ceil
    · have := absorbFrom_spec a.card ⟨some t, a⟩ le_rfl hlow hceil
      simpa [absorb, ht] using this
    · -- the run already ends at the ceiling, so `ahead` is empty
      simp only [absorb, ht, if_false, true_and]
      intro n hn
      have h1 := hlow n hn
      have h2 := hceil n hn
      simp only [base_some] at h1 ⊢
      omega

theorem absorb_mem (hin : s.Within ceil) : (s.absorb ceil).mem = s.mem := (absorb_spec hlow hin).1

theorem absorb_canonical (hin : s.Within ceil) : (s.absorb ceil).Canonical := (absorb_spec hlow hin).2

theorem absorb_within (hin : s.Within ceil) : (s.absorb ceil).Within ceil := by
  intro n hn
  rw [absorb_mem hlow hin] at hn
  exact hin n hn

end Absorb

/-- On a canonical set there is nothing to absorb. -/
theorem absorb_eq_self (hs : s.Canonical) : s.absorb ceil = s := by
  have hloop : ∀ fuel, absorbFrom ceil fuel s.base s = s := by
    intro fuel
    cases fuel with
    | zero => rfl
    | succ fuel =>
      have hb : s.base ∉ s.ahead := fun h => base_not_mem hs (.inr h)
      simp [absorbFrom, hb]
  rcases s with ⟨_ | t, a⟩
  · exact hloop a.card
  · by_cases ht : t < ceil
    · simpa [absorb, ht] using hloop a.card
    · simp [absorb, ht]

theorem absorbFrom_shrinks : ∀ (fuel next : Nat) (s : PrefixSet),
    (absorbFrom ceil fuel next s).ahead ⊆ s.ahead ∧ ((absorbFrom ceil fuel next s).top = s.top ∨
        ∃ t ∈ s.ahead, (absorbFrom ceil fuel next s).top = some t) := by
  intro fuel
  induction fuel with
  | zero => intro next s; exact ⟨Finset.Subset.refl _, .inl rfl⟩
  | succ fuel ih =>
    intro next s
    unfold absorbFrom
    by_cases hn : next ∈ s.ahead
    · simp only [hn, if_true]
      by_cases hlt : next < ceil
      · simp only [hlt, if_true]
        obtain ⟨hsub, htop⟩ := ih (next + 1) ⟨some next, s.ahead.erase next⟩
        refine ⟨hsub.trans (erase_subset _ _), .inr ?_⟩
        rcases htop with h | ⟨t, ht, h⟩
        · exact ⟨next, hn, h⟩
        · exact ⟨t, mem_of_mem_erase ht, h⟩
      · simp only [hlt, if_false]
        exact ⟨erase_subset _ _, .inr ⟨next, hn, rfl⟩⟩
    · rw [if_neg hn]
      exact ⟨Finset.Subset.refl _, .inl rfl⟩

theorem absorb_shrinks (ceil : Nat) (s : PrefixSet) :
    (s.absorb ceil).ahead ⊆ s.ahead ∧ ((s.absorb ceil).top = s.top ∨ ∃ t ∈ s.ahead, (s.absorb ceil).top = some t) := by
  rcases s with ⟨_ | t, a⟩
  · exact absorbFrom_shrinks a.card 0 ⟨none, a⟩
  · by_cases ht : t < ceil
    · simpa [absorb, ht] using absorbFrom_shrinks a.card (t + 1) ⟨some t, a⟩
    · simp [absorb, ht]

/-- Absorbing only takes out of the sparse part. -/
theorem absorb_ahead_subset (ceil : Nat) (s : PrefixSet) : (s.absorb ceil).ahead ⊆ s.ahead := (absorb_shrinks ceil s).1

/-- The top after absorbing is the old one or one of the absorbed members. -/
theorem absorb_top (ceil : Nat) (s : PrefixSet) :
    (s.absorb ceil).top = s.top ∨ ∃ t ∈ s.ahead, (s.absorb ceil).top = some t :=
  (absorb_shrinks ceil s).2

/-! ## Updates -/

/-- A member above the base joins the sparse part. -/
def put (n : Nat) (s : PrefixSet) : PrefixSet := ⟨s.top, insert n s.ahead⟩

/-- Move the top of the run up to `t`, forgetting the sparse members it swallows. -/
def raise (t : Nat) (s : PrefixSet) : PrefixSet := ⟨some t, s.ahead.filter (t < ·)⟩

theorem mem_put (n : Nat) (s : PrefixSet) : (s.put n).mem = insert n s.mem := by
  ext m
  simp only [mem_iff, put, base, mem_insert, Set.mem_insert_iff]
  tauto

theorem put_canonical (hs : s.Canonical) (hn : s.base < n) : (s.put n).Canonical := by
  intro m hm
  rcases mem_insert.mp hm with rfl | hm
  · exact hn
  · exact hs m hm

theorem put_within (hs : s.Within ceil) (hn : n ≤ ceil) : (s.put n).Within ceil := by
  intro m hm
  rw [mem_put] at hm
  rcases hm with rfl | hm
  · exact hn
  · exact hs m hm

/-- Everything through `t` joins the set when its run is raised to `t`. -/
theorem mem_raise (ht : s.base ≤ t + 1) : (s.raise t).mem = {n | n ≤ t} ∪ s.mem := by
  ext n
  simp only [mem_iff, raise, base_some, mem_filter, Set.mem_union, Set.mem_ofPred_eq]
  constructor
  · rintro (h | ⟨h, _⟩)
    · exact .inl (by omega)
    · exact .inr (.inr h)
  · rintro (h | h | h)
    · exact .inl (by omega)
    · exact .inl (by omega)
    · by_cases hn : t < n
      · exact .inr ⟨h, hn⟩
      · exact .inl (by omega)

theorem raise_low (s : PrefixSet) (t : Nat) : ∀ n ∈ (s.raise t).ahead, (s.raise t).base ≤ n := by
  intro n hn
  exact (mem_filter.mp hn).2

theorem raise_within (hs : s.Within ceil) (hb : s.base ≤ t + 1) (ht : t ≤ ceil) : (s.raise t).Within ceil := by
  intro n hn
  rw [mem_raise hb] at hn
  rcases hn with h | h
  · exact le_trans h ht
  · exact hs n h

/-- Extending the run of a canonical set by its base: the sparse part only has to be absorbed. -/
theorem advance_low (hs : s.Canonical) : ∀ n ∈ (⟨some s.base, s.ahead⟩ : PrefixSet).ahead,
    base ⟨some s.base, s.ahead⟩ ≤ n := by
  intro n hn
  exact hs n hn

theorem mem_advance (s : PrefixSet) : (⟨some s.base, s.ahead⟩ : PrefixSet).mem = insert s.base s.mem := by
  ext n
  simp only [mem_iff, base_some, Set.mem_insert_iff, Nat.lt_succ_iff, le_iff_eq_or_lt]
  tauto

theorem advance_within (hs : s.Within ceil) (hb : s.base ≤ ceil) : (⟨some s.base, s.ahead⟩ : PrefixSet).Within ceil := by
  intro n hn
  rw [mem_advance] at hn
  rcases hn with rfl | h
  · exact hb
  · exact hs n h

end PrefixSet

end Lib
