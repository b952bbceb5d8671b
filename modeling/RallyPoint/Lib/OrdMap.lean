import Mathlib.Algebra.BigOperators.Group.Finset.Basic
import Mathlib.Algebra.Ring.Nat

/-!
# `Lib.OrdMap` — finite maps kept in key order

An `OrdMap` is an association list whose keys ascend strictly: iteration goes in key order, and every
operation computes by structural recursion. The sortedness is a field, so a map with a key twice or out
of order cannot be built.

Everything about the contents goes through `get?_eq_some`: the entries are exactly the pairs that `get?`
finds.
-/

namespace Lib

open List

universe u v

/-- A finite map from `κ` to `α`, listed in ascending key order. -/
structure OrdMap (κ : Type u) (α : Type v) [LinearOrder κ] where
  entries : List (κ × α)
  sorted : entries.Pairwise fun a b => a.1 < b.1

namespace OrdMap

variable {κ : Type u} {α : Type v} [LinearOrder κ] (m : OrdMap κ α)

/-- The empty map. -/
def empty : OrdMap κ α := ⟨[], .nil⟩

/-- The values in key order. -/
def values : List α := m.entries.map Prod.snd

/-- The number of entries. -/
def size : Nat := m.entries.length

/-- The value at `k`. -/
def get? (k : κ) : Option α := (m.entries.find? fun e => e.1 = k).map Prod.snd

/-- Two entries with the same key are the same entry. -/
theorem entry_unique {e f : κ × α} (he : e ∈ m.entries) (hf : f ∈ m.entries) (h : e.1 = f.1) : e = f := by
  by_contra hne
  have hirr : m.entries.Pairwise fun a b => a.1 ≠ b.1 := m.sorted.imp fun hab => ne_of_lt hab
  have hsymm : Std.Symm fun a b : κ × α => a.1 ≠ b.1 := ⟨fun _ _ hab => Ne.symm hab⟩
  exact hirr.forall he hf hne h

variable {k : κ} {v : α} {l : List (κ × α)}

/-- **The entries are the pairs that `get?` finds.** -/
theorem get?_eq_some {m : OrdMap κ α} : m.get? k = some v ↔ (k, v) ∈ m.entries := by
  unfold get?
  constructor
  · intro h
    obtain ⟨e, he, rfl⟩ := Option.map_eq_some_iff.mp h
    have hk : e.1 = k := by simpa using find?_some he
    rw [← hk]
    exact mem_of_find?_eq_some he
  · intro h
    cases hf : m.entries.find? fun e => e.1 = k with
    | none =>
      have := find?_eq_none.mp hf _ h
      simp at this
    | some e =>
      have hk : e.1 = k := by simpa using find?_some hf
      have := m.entry_unique (mem_of_find?_eq_some hf) h hk
      rw [this]; rfl

theorem mem_values {m : OrdMap κ α} : v ∈ m.values ↔ ∃ k, m.get? k = some v := by
  unfold values
  constructor
  · intro h
    obtain ⟨⟨k, w⟩, he, rfl⟩ := mem_map.mp h
    exact ⟨k, get?_eq_some.mpr he⟩
  · rintro ⟨k, h⟩
    exact mem_map.mpr ⟨(k, v), get?_eq_some.mp h, rfl⟩

/-- The keys of a map. -/
def keys : Finset κ := (m.entries.map Prod.fst).toFinset

theorem mem_keys {m : OrdMap κ α} : k ∈ m.keys ↔ ∃ v, m.get? k = some v := by
  unfold keys
  rw [mem_toFinset, mem_map]
  constructor
  · rintro ⟨⟨k', v⟩, he, rfl⟩
    exact ⟨v, get?_eq_some.mpr he⟩
  · rintro ⟨v, h⟩
    exact ⟨(k, v), get?_eq_some.mp h, rfl⟩

theorem card_keys : m.keys.card = m.size := by
  unfold keys size
  rw [toFinset_card_of_nodup, length_map]
  exact pairwise_map.mpr (m.sorted.imp fun h => ne_of_lt h)

theorem size_pos {m : OrdMap κ α} : 0 < m.size ↔ ∃ k, (m.get? k).isSome = true := by
  rw [← card_keys, Finset.card_pos]
  simp only [Finset.Nonempty, mem_keys, Option.isSome_iff_exists]

/-! ## Counting values -/

section Count

variable {m m' : OrdMap κ α} {p : α → Bool}

theorem mem_filter_keys : (k ∈ m.keys.filter fun k => (m.get? k).any p = true) ↔ ∃ v, m.get? k = some v ∧ p v = true := by
  rw [Finset.mem_filter, mem_keys]
  constructor
  · rintro ⟨⟨v, hv⟩, hp⟩
    rw [hv] at hp
    exact ⟨v, hv, hp⟩
  · rintro ⟨v, hv, hp⟩
    refine ⟨⟨v, hv⟩, ?_⟩
    rw [hv]
    exact hp

/-- **The values that satisfy `p` are counted by their keys.** -/
theorem countP_values (m : OrdMap κ α) (p : α → Bool) :
    m.values.countP p = (m.keys.filter fun k => (m.get? k).any p = true).card := by
  have hnodup : (m.entries.map Prod.fst).Nodup := pairwise_map.mpr (m.sorted.imp fun h => ne_of_lt h)
  have hset : (m.keys.filter fun k => (m.get? k).any p = true) =
    ((m.entries.filter fun e => p e.2).map Prod.fst).toFinset := by
    ext k
    rw [mem_filter_keys, mem_toFinset, mem_map]
    constructor
    · rintro ⟨v, hv, hp⟩
      exact ⟨(k, v), mem_filter.mpr ⟨get?_eq_some.mp hv, hp⟩, rfl⟩
    · rintro ⟨⟨k', v⟩, he, rfl⟩
      obtain ⟨he, hp⟩ := mem_filter.mp he
      exact ⟨v, get?_eq_some.mpr he, hp⟩
  rw [hset, toFinset_card_of_nodup (hnodup.sublist (filter_sublist.map Prod.fst)), length_map, values,
    countP_map, countP_eq_length_filter]
  rfl

theorem countP_values_mono (h : ∀ k v, m.get? k = some v → p v = true → ∃ v', m'.get? k = some v' ∧ p v' = true) :
    m.values.countP p ≤ m'.values.countP p := by
  rw [countP_values, countP_values]
  refine Finset.card_le_card ?_
  intro k hk
  obtain ⟨v, hv, hp⟩ := mem_filter_keys.mp hk
  exact mem_filter_keys.mpr (h k v hv hp)

/-- At one key the counts may differ. -/
theorem countP_values_le_succ (k₀ : κ) (h : ∀ k v, k ≠ k₀ → m.get? k = some v → p v = true →
    ∃ v', m'.get? k = some v' ∧ p v' = true) :
    m.values.countP p ≤ m'.values.countP p + 1 := by
  rw [countP_values, countP_values]
  refine le_trans (Finset.card_le_card ?_) (Finset.card_insert_le k₀ _)
  intro k hk
  obtain ⟨v, hv, hp⟩ := mem_filter_keys.mp hk
  by_cases hne : k = k₀
  · exact Finset.mem_insert.mpr (.inl hne)
  · exact Finset.mem_insert_of_mem (mem_filter_keys.mpr (h k v hne hv hp))

end Count

@[simp] theorem get?_empty (k : κ) : (empty : OrdMap κ α).get? k = none := rfl

/-! ## Insertion -/

/-- Put `(k, v)` at its place in an ascending list, replacing an entry with the same key. -/
def insertEntry (k : κ) (v : α) : List (κ × α) → List (κ × α)
  | [] => [(k, v)]
  | e :: l =>
    if k < e.1 then (k, v) :: e :: l
    else if k = e.1 then (k, v) :: l
    else e :: insertEntry k v l

theorem mem_insertEntry (hl : l.Pairwise fun a b => a.1 < b.1)
    {e : κ × α} : e ∈ insertEntry k v l ↔ e = (k, v) ∨ e ∈ l ∧ e.1 ≠ k := by
  induction l with
  | nil => simp [insertEntry]
  | cons f l ih =>
    obtain ⟨hf, hl⟩ := pairwise_cons.mp hl
    unfold insertEntry
    by_cases hlt : k < f.1
    · -- the list is sorted, so a key below its head is nowhere in it
      rw [if_pos hlt]
      have hne : ∀ g ∈ f :: l, g.1 ≠ k := by
        intro g hg
        obtain rfl | hg := mem_cons.mp hg
        · exact ne_of_gt hlt
        · exact ne_of_gt (lt_trans hlt (hf g hg))
      rw [mem_cons]
      constructor
      · rintro (h | h)
        · exact .inl h
        · exact .inr ⟨h, hne e h⟩
      · rintro (h | ⟨h, -⟩)
        · exact .inl h
        · exact .inr h
    · rw [if_neg hlt]
      by_cases heq : k = f.1
      · rw [if_pos heq, mem_cons, mem_cons]
        have hne : ∀ g ∈ l, g.1 ≠ k := fun g hg => heq ▸ ne_of_gt (hf g hg)
        constructor
        · rintro (h | h)
          · exact .inl h
          · exact .inr ⟨.inr h, hne e h⟩
        · rintro (h | ⟨rfl | h, hk⟩)
          · exact .inl h
          · exact absurd heq.symm hk
          · exact .inr h
      · rw [if_neg heq, mem_cons, ih hl, mem_cons]
        constructor
        · rintro (rfl | h | ⟨h, hk⟩)
          · exact .inr ⟨.inl rfl, Ne.symm heq⟩
          · exact .inl h
          · exact .inr ⟨.inr h, hk⟩
        · rintro (h | ⟨rfl | h, hk⟩)
          · exact .inr (.inl h)
          · exact .inl rfl
          · exact .inr (.inr ⟨h, hk⟩)

theorem insertEntry_sorted (hl : l.Pairwise fun a b => a.1 < b.1) :
    (insertEntry k v l).Pairwise fun a b => a.1 < b.1 := by
  induction l with
  | nil => exact pairwise_singleton _ _
  | cons f l ih =>
    obtain ⟨hf, hl'⟩ := pairwise_cons.mp hl
    unfold insertEntry
    by_cases hlt : k < f.1
    · rw [if_pos hlt]
      refine pairwise_cons.mpr ⟨?_, hl⟩
      intro g hg
      obtain rfl | hg := mem_cons.mp hg
      · exact hlt
      · exact lt_trans hlt (hf g hg)
    · rw [if_neg hlt]
      by_cases heq : k = f.1
      · rw [if_pos heq]
        exact pairwise_cons.mpr ⟨fun g hg => heq ▸ hf g hg, hl'⟩
      · rw [if_neg heq]
        refine pairwise_cons.mpr ⟨?_, ih hl'⟩
        intro g hg
        obtain rfl | ⟨hg, -⟩ := (mem_insertEntry hl').mp hg
        · exact lt_of_le_of_ne (not_lt.mp hlt) (Ne.symm heq)
        · exact hf g hg

/-- Insert or replace the entry at `k`. -/
def insert (k : κ) (v : α) : OrdMap κ α := ⟨insertEntry k v m.entries, insertEntry_sorted m.sorted⟩

theorem get?_insert (k k' : κ) (v : α) : (m.insert k v).get? k' = if k' = k then some v else m.get? k' := by
  apply Option.ext
  intro w
  rw [get?_eq_some]
  show (k', w) ∈ insertEntry k v m.entries ↔ _
  rw [mem_insertEntry m.sorted]
  by_cases h : k' = k
  · subst h; simp [eq_comm]
  · simp [h, get?_eq_some]

/-- An entry after an insert is the one inserted, or was there. -/
theorem get?_insert_eq_some {m : OrdMap κ α} {k' : κ} {v w : α} :
    (m.insert k v).get? k' = some w ↔ (k' = k ∧ v = w) ∨ (k' ≠ k ∧ m.get? k' = some w) := by
  rw [get?_insert]
  split <;> simp_all

@[simp] theorem get?_insert_self (k : κ) (v : α) : (m.insert k v).get? k = some v := by
  rw [get?_insert, if_pos rfl]

/-- An insertion adds at most one value to count. -/
theorem countP_values_insert_le (k : κ) (v : α) (p : α → Bool) : (m.insert k v).values.countP p ≤ m.values.countP p + 1 := by
  refine countP_values_le_succ k ?_
  intro k' v' hne hget hp
  rw [get?_insert, if_neg hne] at hget
  exact ⟨v', hget, hp⟩

/-- The map of a list of pairs; a later pair replaces an earlier one of its key. -/
def ofList (l : List (κ × α)) : OrdMap κ α := l.foldl (fun m e => m.insert e.1 e.2) empty

/-! ## Removal and update -/

/-- Keep the entries that satisfy `p`. -/
def filter (p : κ → α → Bool) : OrdMap κ α := ⟨m.entries.filter fun e => p e.1 e.2, m.sorted.filter _⟩

/-- Remove the entry at `k`. -/
def erase (k : κ) : OrdMap κ α := m.filter fun k' _ => k' ≠ k

/-- Change every value in place, given its key. -/
def mapValues (f : κ → α → α) : OrdMap κ α := ⟨m.entries.map fun e => (e.1, f e.1 e.2), List.pairwise_map.mpr m.sorted⟩

/-- Change the value at `k`, if there is one. -/
def modify (k : κ) (f : α → α) : OrdMap κ α := m.mapValues fun k' v => if k' = k then f v else v

theorem get?_filter_eq_some {m : OrdMap κ α} {p : κ → α → Bool} :
    (m.filter p).get? k = some v ↔ m.get? k = some v ∧ p k v = true := by
  rw [get?_eq_some, get?_eq_some]
  exact mem_filter

theorem get?_erase (k k' : κ) : (m.erase k).get? k' = if k' = k then none else m.get? k' := by
  apply Option.ext
  intro w
  rw [erase, get?_filter_eq_some]
  by_cases h : k' = k <;> simp [h]

theorem get?_erase_eq_some {m : OrdMap κ α} {k' : κ} : (m.erase k).get? k' = some v ↔ k' ≠ k ∧ m.get? k' = some v := by
  rw [get?_erase]
  split <;> simp_all

/-- Removing an entry leaves fewer. -/
theorem size_erase_lt {m : OrdMap κ α} (h : m.get? k = some v) : (m.erase k).size < m.size := by
  rw [← card_keys, ← card_keys]
  refine Finset.card_lt_card (Finset.ssubset_iff_subset_ne.mpr ⟨?_, ?_⟩)
  · intro k' hk'
    obtain ⟨w, hw⟩ := mem_keys.mp hk'
    exact mem_keys.mpr ⟨w, (get?_erase_eq_some.mp hw).2⟩
  · intro heq
    have hin : k ∈ (m.erase k).keys := heq ▸ mem_keys.mpr ⟨v, h⟩
    obtain ⟨w, hw⟩ := mem_keys.mp hin
    rw [get?_erase, if_pos rfl] at hw
    cases hw

theorem get?_mapValues (f : κ → α → α) (k : κ) : (m.mapValues f).get? k = (m.get? k).map (f k) := by
  apply Option.ext
  intro w
  rw [get?_eq_some, Option.map_eq_some_iff]
  unfold mapValues
  constructor
  · intro h
    obtain ⟨e, he, heq⟩ := mem_map.mp h
    cases heq
    exact ⟨e.2, get?_eq_some.mpr he, rfl⟩
  · rintro ⟨v, hv, rfl⟩
    exact mem_map.mpr ⟨(k, v), get?_eq_some.mp hv, rfl⟩

theorem get?_modify (k k' : κ) (f : α → α) : (m.modify k f).get? k' = if k' = k then (m.get? k').map f else m.get? k' := by
  rw [modify, get?_mapValues]
  by_cases h : k' = k
  · simp [h]
  · simp [h]

/-! ## Summing values -/

section Sum

variable {m n : OrdMap κ α}

/-- What the entry at `k` adds to a sum over the values. -/
def part (f : α → Nat) (m : OrdMap κ α) (k : κ) : Nat := ((m.get? k).map f).getD 0

/-- **The values are summed by their keys**, and by any keys that have them all. -/
theorem sum_values (f : α → Nat) {s : Finset κ} (hs : m.keys ⊆ s) : (m.values.map f).sum = ∑ k ∈ s, m.part f k := by
  have hnodup : (m.entries.map Prod.fst).Nodup := pairwise_map.mpr (m.sorted.imp fun h => ne_of_lt h)
  have hkeys : (m.values.map f).sum = ∑ k ∈ m.keys, m.part f k := by
    rw [keys, sum_toFinset _ hnodup, values, map_map, map_map]
    refine congrArg sum (map_congr_left fun e he => ?_)
    simp [part, get?_eq_some.mpr he]
  rw [hkeys]
  refine Finset.sum_subset hs fun k _ hk => ?_
  cases hget : m.get? k with
  | none => simp [part, hget]
  | some v => exact absurd (mem_keys.mpr ⟨v, hget⟩) hk

variable {f : α → Nat}

/-- Two maps that agree at every key but one: the sums differ by its entries. -/
theorem sum_values_agree (k₀ : κ) (h : ∀ k, k ≠ k₀ → m.part f k = n.part f k) :
    (m.values.map f).sum + n.part f k₀ = (n.values.map f).sum + m.part f k₀ := by
  have hleft : m.keys ⊆ {k₀} ∪ (m.keys ∪ n.keys) := fun k hk => by simp [hk]
  have hright : n.keys ⊆ {k₀} ∪ (m.keys ∪ n.keys) := fun k hk => by simp [hk]
  have hmem : k₀ ∈ {k₀} ∪ (m.keys ∪ n.keys) := by simp
  have hrest := Finset.sum_congr rfl fun k (hk : k ∈ ({k₀} ∪ (m.keys ∪ n.keys)).erase k₀) => h k (Finset.ne_of_mem_erase hk)
  rw [sum_values f hleft, sum_values f hright, ← Finset.add_sum_erase _ _ hmem,
    ← Finset.add_sum_erase _ (n.part f) hmem, hrest]
  have hswap : ∀ a b c : Nat, a + b + c = c + b + a := by omega
  exact hswap _ _ _

theorem sum_values_congr (h : ∀ k, m.part f k = n.part f k) : (m.values.map f).sum = (n.values.map f).sum := by
  have hkeys := fun k (_ : k ∈ m.keys ∪ n.keys) => h k
  rw [sum_values f (show m.keys ⊆ m.keys ∪ n.keys from Finset.subset_union_left),
    sum_values f (show n.keys ⊆ m.keys ∪ n.keys from Finset.subset_union_right),
    Finset.sum_congr rfl hkeys]

theorem sum_values_insert (m : OrdMap κ α) (f : α → Nat) (k : κ) (v : α) :
    ((m.insert k v).values.map f).sum + m.part f k = (m.values.map f).sum + f v := by
  have h := sum_values_agree (m := m.insert k v) (n := m) (f := f) k fun k' hne => by simp [part, get?_insert, hne]
  simpa [part] using h

theorem sum_values_erase (f : α → Nat) (h : m.get? k = some v) :
    ((m.erase k).values.map f).sum + f v = (m.values.map f).sum := by
  have hsum := sum_values_agree (m := m.erase k) (n := m) (f := f) k fun k' hne => by simp [part, get?_erase, hne]
  simpa [part, get?_erase, h] using hsum

end Sum

end OrdMap

end Lib
