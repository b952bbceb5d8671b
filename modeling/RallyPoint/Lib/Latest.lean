import Mathlib.Order.Lattice

/-!
# `Lib.Latest` — registers that keep the greatest observation

A register holds a rank. An observation with a greater key is **adopted**, and the register then has that
key for its rank; any other leaves it as it is. So the order and the number of the observations do not
matter: in the end the greatest of them was the last one adopted.
-/

namespace Lib

open List

universe u v w

/-- A register over states `σ` that is shown values `α`, ranked by `κ`. -/
structure Latest (σ : Type u) (α : Type v) (κ : Type w) [LinearOrder κ] where
  rank : σ → κ
  key : α → κ
  adopt : σ → α → σ
  rank_adopt : ∀ s a, rank (adopt s a) = key a

namespace Latest

variable {σ : Type u} {α : Type v} {κ : Type w} [LinearOrder κ] (r : Latest σ α κ) {s : σ} {top : α} {l : List α}

/-- Shown one value. -/
def observe (s : σ) (a : α) : σ := if r.rank s < r.key a then r.adopt s a else s

/-- Shown one value after the other. -/
def observeAll (s : σ) (l : List α) : σ := l.foldl r.observe s

theorem rank_observe (s : σ) (a : α) : r.rank (r.observe s a) = max (r.rank s) (r.key a) := by
  unfold observe
  split
  · rename_i h
    rw [r.rank_adopt, max_eq_right h.le]
  · rename_i h
    rw [max_eq_left (not_lt.mp h)]

/-- What is above everything shown stays above. -/
theorem rank_observeAll_le {k : κ} (hs : r.rank s ≤ k) (h : ∀ a ∈ l, r.key a ≤ k) : r.rank (r.observeAll s l) ≤ k := by
  induction l generalizing s with
  | nil => exact hs
  | cons a l ih =>
    refine ih ?_ fun b hb => h b (mem_cons_of_mem a hb)
    rw [r.rank_observe]
    exact max_le hs (h a mem_cons_self)

theorem le_rank_observeAll (s : σ) (l : List α) : r.rank s ≤ r.rank (r.observeAll s l) := by
  induction l generalizing s with
  | nil => exact le_rfl
  | cons a l ih =>
    refine le_trans ?_ (ih (r.observe s a))
    rw [r.rank_observe]
    exact le_max_left _ _

/-- A value shown is not above the rank afterwards. -/
theorem key_le_rank_observeAll (s : σ) (h : top ∈ l) : r.key top ≤ r.rank (r.observeAll s l) := by
  induction l generalizing s with
  | nil => cases h
  | cons a l ih =>
    rcases mem_cons.mp h with rfl | h
    · refine le_trans ?_ (r.le_rank_observeAll (r.observe s top) l)
      rw [r.rank_observe]
      exact le_max_right _ _
    · exact ih _ h

/-- **The rank after any observations is the greatest key among them.** -/
theorem rank_observeAll (hs : r.rank s ≤ r.key top) (hmem : top ∈ l) (htop : ∀ a ∈ l, r.key a ≤ r.key top) :
    r.rank (r.observeAll s l) = r.key top :=
  le_antisymm (r.rank_observeAll_le hs htop) (r.key_le_rank_observeAll s hmem)

/-- Values that are not above the rank change nothing. -/
theorem observeAll_eq_self (h : ∀ a ∈ l, r.key a ≤ r.rank s) : r.observeAll s l = s := by
  induction l with
  | nil => rfl
  | cons a l ih =>
    have hfirst : r.observe s a = s := if_neg (not_lt.mpr (h a mem_cons_self))
    show r.observeAll (r.observe s a) l = s
    rw [hfirst]
    exact ih fun b hb => h b (mem_cons_of_mem a hb)

/-- **The greatest value shown is the last one adopted**, if above the first rank and alone with its key. -/
theorem observeAll_adopts (hs : r.rank s < r.key top) (hmem : top ∈ l) (htop : ∀ a ∈ l, r.key a ≤ r.key top)
    (honly : ∀ a ∈ l, r.key a = r.key top → a = top) : ∃ s', r.rank s' < r.key top ∧ r.observeAll s l = r.adopt s' top := by
  induction l generalizing s with
  | nil => cases hmem
  | cons a l ih =>
    have hrest : ∀ b ∈ l, r.key b ≤ r.key top := fun b hb => htop b (mem_cons_of_mem a hb)
    by_cases ha : a = top
    · subst ha
      have hadopt : r.observe s a = r.adopt s a := if_pos hs
      refine ⟨s, hs, ?_⟩
      show r.observeAll (r.observe s a) l = _
      rw [hadopt]
      exact r.observeAll_eq_self fun b hb => (r.rank_adopt s a).symm ▸ hrest b hb
    · have hbelow : r.key a < r.key top := lt_of_le_of_ne (htop a mem_cons_self) fun heq => ha (honly a mem_cons_self heq)
      refine ih ?_ ((mem_cons.mp hmem).resolve_left (Ne.symm ha)) hrest fun b hb => honly b (mem_cons_of_mem a hb)
      rw [r.rank_observe]
      exact max_lt hs hbelow

end Latest

end Lib
