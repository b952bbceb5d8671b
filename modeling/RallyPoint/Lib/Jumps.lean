import Mathlib.Algebra.BigOperators.Group.List.Basic
import Mathlib.Algebra.Order.Group.Nat
import Mathlib.Algebra.Ring.Nat
import Mathlib.Data.List.Dedup
import Mathlib.Data.List.Sort

/-!
# `Lib.Jumps` — functions that grow by jumps

A list of **jumps**, each a place and an amount, stands for a function of the natural numbers: `before l
s` is the sum of the amounts at places below `s`. It grows right after the place of a jump and nowhere
else.

The other way round, `growth F m steps` walks over the places `steps` and writes down by how much `F` has
grown at each. When `steps` has every place after which `F` grows, that is all there is to know about `F`
(`growth_before`); and the jumps of a list are found again (`growth_self`).

- `sortDedup`: the places of a list, ascending, each once.
-/

namespace Lib

open List

universe u

/-- A type of jumps. -/
structure Jumps (α : Type u) where
  place : α → Nat
  amount : α → Nat
  jump : Nat → Nat → α
  place_jump : ∀ p a, place (jump p a) = p
  amount_jump : ∀ p a, amount (jump p a) = a
  jump_eta : ∀ x, jump (place x) (amount x) = x

namespace Jumps

variable {α : Type u} (J : Jumps α) {l : List α} {F : Nat → Nat} {m : Nat} {steps : List Nat}

/-- The sum of the jumps at places below `s`. -/
def before (l : List α) (s : Nat) : Nat := ((l.filter fun x => J.place x < s).map J.amount).sum

/-- The places ascend strictly. -/
def Ascending (l : List α) : Prop := l.Pairwise fun x y => J.place x < J.place y

@[simp] theorem before_nil (s : Nat) : J.before [] s = 0 := rfl

theorem before_cons (x : α) (l : List α) (s : Nat) :
    J.before (x :: l) s = (if J.place x < s then J.amount x else 0) + J.before l s := by
  unfold before
  by_cases h : J.place x < s
  · simp [h]
  · simp [h]

@[simp] theorem before_append (l l' : List α) (s : Nat) :
    J.before (l ++ l') s = J.before l s + J.before l' s := by simp [before]

theorem before_mono (l : List α) {s t : Nat} (h : s ≤ t) : J.before l s ≤ J.before l t := by
  induction l with
  | nil => exact le_rfl
  | cons x l ih =>
    rw [before_cons, before_cons]
    by_cases hx : J.place x < s
    · rw [if_pos hx, if_pos (lt_of_lt_of_le hx h)]
      exact Nat.add_le_add_left ih _
    · rw [if_neg hx]
      omega

/-- Between two places with no jump from the first on and below the second, nothing is added. -/
theorem before_congr {s t : Nat} (h : ∀ x ∈ l, J.place x < s ↔ J.place x < t) : J.before l s = J.before l t := by
  unfold before
  rw [filter_congr fun x hx => decide_eq_decide.mpr (h x hx)]

variable {s : Nat} {x : α}

theorem before_eq_zero (h : ∀ x ∈ l, s ≤ J.place x) : J.before l s = 0 := by
  have hnone : l.filter (fun x => J.place x < s) = [] := filter_eq_nil_iff.mpr fun x hx => by simpa using h x hx
  rw [before, hnone]
  rfl

/-- The jumps below `t` are all that counts below `t`. -/
theorem before_filter {t : Nat} (h : s ≤ t) : J.before (l.filter fun x => J.place x < t) s = J.before l s := by
  unfold before
  rw [filter_filter]
  congr 2
  refine filter_congr fun x _ => ?_
  by_cases hx : J.place x < s
  · simp [hx, lt_of_lt_of_le hx h]
  · simp [hx]

/-- A jump is the only thing that makes a difference at its place. -/
theorem exists_of_before_ne (h : J.before l (s + 1) ≠ J.before l s) : ∃ x ∈ l, J.place x = s := by
  by_contra hno
  refine h (J.before_congr fun x hx => ?_)
  have hne : J.place x ≠ s := fun he => hno ⟨x, hx, he⟩
  omega

theorem before_takeWhile_add_dropWhile (p : α → Bool) (s : Nat) :
    J.before (l.takeWhile p) s + J.before (l.dropWhile p) s = J.before l s := by
  rw [← before_append, takeWhile_append_dropWhile]

/-- Past every place, the whole sum. -/
theorem before_eq_sum (h : ∀ x ∈ l, J.place x < s) : J.before l s = (l.map J.amount).sum := by
  unfold before
  rw [filter_eq_self.mpr fun x hx => by simpa using h x hx]

variable {J} in
/-- The jumps below a place are the first ones. -/
theorem Ascending.takeWhile_eq_filter (hl : J.Ascending l) (s : Nat) :
    (l.takeWhile fun x => J.place x < s) = l.filter fun x => J.place x < s := by
  induction l with
  | nil => rfl
  | cons x l ih =>
    obtain ⟨hx, hl⟩ := pairwise_cons.mp hl
    by_cases hlt : J.place x < s
    · rw [takeWhile_cons_of_pos (by simpa using hlt), filter_cons_of_pos (by simpa using hlt), ih hl]
    · have hnone : l.filter (fun x => J.place x < s) = [] := by
        refine filter_eq_nil_iff.mpr fun y hy => ?_
        have := hx y hy
        simp only [decide_eq_true_eq]
        omega
      rw [takeWhile_cons_of_neg (by simpa using hlt), filter_cons_of_neg (by simpa using hlt), hnone]

variable {J} in
theorem Ascending.le_of_mem_dropWhile (hl : J.Ascending l)
    (hx : x ∈ l.dropWhile fun x => J.place x < s) : s ≤ J.place x := by
  induction l with
  | nil => cases hx
  | cons y l ih =>
    obtain ⟨hy, hl⟩ := pairwise_cons.mp hl
    by_cases hlt : J.place y < s
    · rw [dropWhile_cons_of_pos (by simpa using hlt)] at hx
      exact ih hl hx
    · rw [dropWhile_cons_of_neg (by simpa using hlt)] at hx
      obtain rfl | hx := mem_cons.mp hx
      · omega
      · have := hy x hx
        omega

/-! ## Reading the jumps off a function -/

/-- The growth of `F` over the places `steps`, from the value `m` on. -/
def growth (F : Nat → Nat) : Nat → List Nat → List α
  | _, [] => []
  | m, step :: rest =>
    if m < F (step + 1) then J.jump step (F (step + 1) - m) :: growth F (F (step + 1)) rest else growth F m rest

/-- Every jump read off is a real one, at one of the places. -/
theorem of_mem_growth (h : x ∈ J.growth F m steps) : J.place x ∈ steps ∧ 0 < J.amount x := by
  induction steps generalizing m with
  | nil => cases h
  | cons step rest ih =>
    unfold growth at h
    split at h
    · next hlt =>
        obtain rfl | h := mem_cons.mp h
        · rw [J.place_jump, J.amount_jump]
          exact ⟨mem_cons_self, Nat.sub_pos_of_lt hlt⟩
        · exact (ih h).imp_left (mem_cons_of_mem _)
    · exact (ih h).imp_left (mem_cons_of_mem _)

theorem growth_ascending (h : steps.Pairwise (· < ·)) : J.Ascending (J.growth F m steps) := by
  induction steps generalizing m with
  | nil => exact .nil
  | cons step rest ih =>
    obtain ⟨hlt, hrest⟩ := pairwise_cons.mp h
    unfold growth
    split
    · refine pairwise_cons.mpr ⟨?_, ih hrest⟩
      intro x hx
      rw [J.place_jump]
      exact hlt _ (J.of_mem_growth hx).1
    · exact ih hrest

theorem growth_congr {G : Nat → Nat} (h : ∀ s ∈ steps, F (s + 1) = G (s + 1)) : J.growth F m steps = J.growth G m steps := by
  induction steps generalizing m with
  | nil => rfl
  | cons step rest ih =>
    unfold growth
    rw [h step mem_cons_self]
    have hrest : ∀ s ∈ rest, F (s + 1) = G (s + 1) := fun s hs => h s (mem_cons_of_mem _ hs)
    rw [ih hrest, ih hrest]

/-- A function that grows after none of the places up to `s` is the same there. -/
theorem eq_of_no_growth {t : Nat} (hts : t ≤ s) (h : ∀ u, t ≤ u → u < s → F (u + 1) = F u) : F s = F t := by
  induction s, hts using Nat.le_induction with
  | base => rfl
  | succ s hts ih =>
    rw [h s hts (Nat.lt_succ_self s)]
    exact ih fun u htu hus => h u htu (Nat.lt_succ_of_lt hus)

/-- **The jumps read off a function add up to it**, from `t` on, if it never shrinks and grows only after
    `steps`. -/
theorem growth_before {t : Nat} (hsorted : steps.Pairwise (· < ·))
    (hfrom : ∀ x ∈ steps, t ≤ x) (hmono : ∀ u, t ≤ u → F u ≤ F (u + 1))
    (hgrow : ∀ u, t ≤ u → F (u + 1) ≠ F u → u ∈ steps) (hs : t ≤ s) : F t + J.before (J.growth F (F t) steps) s = F s := by
  induction steps generalizing t with
  | nil =>
    refine (eq_of_no_growth hs fun u htu _ => ?_).symm
    by_contra hne
    exact absurd (hgrow u htu hne) (by simp)
  | cons step rest ih =>
    obtain ⟨hlt, hrest⟩ := pairwise_cons.mp hsorted
    have hstep : t ≤ step := hfrom step mem_cons_self
    -- up to `step` nothing happens
    have hflat : ∀ v, t ≤ v → v ≤ step → F v = F t := by
      intro v htv hv
      refine eq_of_no_growth htv fun u htu huv => ?_
      by_contra hne
      obtain rfl | hmem := mem_cons.mp (hgrow u htu hne)
      · omega
      · have := hlt u hmem
        omega
    by_cases hle : s ≤ step
    · have hnone : J.before (J.growth F (F t) (step :: rest)) s = 0 := by
        refine J.before_eq_zero fun x hx => ?_
        obtain heq | hmem := mem_cons.mp (J.of_mem_growth hx).1
        · omega
        · have := hlt _ hmem
          omega
      rw [hnone, hflat s hs hle, Nat.add_zero]
    · have hnext := ih (t := step + 1) hrest (fun x hx => hlt x hx) (fun u hu => hmono u (by omega)) (fun u hu hne => by
          obtain rfl | hmem := mem_cons.mp (hgrow u (by omega) hne)
          · omega
          · exact hmem) (by omega)
      have hstart : F step = F t := hflat step hstep le_rfl
      have hup := hmono step hstep
      unfold growth
      by_cases hjump : F t < F (step + 1)
      · rw [if_pos hjump, before_cons, J.place_jump, J.amount_jump, if_pos (by omega)]
        omega
      · have heq : F (step + 1) = F t := by omega
        rw [if_neg hjump]
        rwa [heq] at hnext

/-- **The jumps of a list are found again**, when each is real and at one of the places walked over. -/
theorem growth_self (hl : J.Ascending l)
    (hpos : ∀ x ∈ l, 0 < J.amount x) (hsorted : steps.Pairwise (· < ·)) (hin : ∀ x ∈ l, J.place x ∈ steps)
    (hF : ∀ s ∈ steps, F (s + 1) = m + J.before l (s + 1)) : J.growth F m steps = l := by
  induction steps generalizing m l with
  | nil =>
    cases l with
    | nil => rfl
    | cons x l => exact absurd (hin x mem_cons_self) (by simp)
  | cons step rest ih =>
    obtain ⟨hlt, hrest⟩ := pairwise_cons.mp hsorted
    have hhere := hF step mem_cons_self
    unfold growth
    by_cases hfirst : ∃ y l', l = y :: l' ∧ J.place y = step
    · obtain ⟨y, l', rfl, rfl⟩ := hfirst
      obtain ⟨hyl, hl'⟩ := pairwise_cons.mp hl
      have hafter : J.before l' (J.place y + 1) = 0 := J.before_eq_zero fun x hx => hyl x hx
      rw [before_cons, if_pos (Nat.lt_succ_self _), hafter, add_zero (J.amount y)] at hhere
      have hy := hpos y mem_cons_self
      rw [if_pos (by omega), hhere, Nat.add_sub_cancel_left, J.jump_eta]
      congr 1
      refine ih hl' (fun x hx => hpos x (mem_cons_of_mem _ hx)) hrest ?_ ?_
      · intro x hx
        obtain heq | hmem := mem_cons.mp (hin x (mem_cons_of_mem _ hx))
        · have := hyl x hx
          omega
        · exact hmem
      · intro s hs
        have hys := hlt s hs
        rw [hF s (mem_cons_of_mem _ hs), before_cons, if_pos (by omega)]
        omega
    · -- the list starts past `step`, so nothing has grown yet
      have hpast : ∀ x ∈ l, step < J.place x := by
        intro x hx
        cases l with
        | nil => cases hx
        | cons y l' =>
          have hy : step < J.place y := by
            obtain heq | hmem := mem_cons.mp (hin y mem_cons_self)
            · exact absurd ⟨y, l', rfl, heq⟩ hfirst
            · exact hlt _ hmem
          obtain rfl | hx := mem_cons.mp hx
          · exact hy
          · exact lt_trans hy ((pairwise_cons.mp hl).1 x hx)
      rw [J.before_eq_zero fun x hx => hpast x hx, Nat.add_zero] at hhere
      rw [if_neg (by omega)]
      refine ih hl hpos hrest ?_ fun s hs => hF s (mem_cons_of_mem _ hs)
      intro x hx
      obtain heq | hmem := mem_cons.mp (hin x hx)
      · have := hpast x hx
        omega
      · exact hmem

end Jumps

/-! ## Places in order -/

/-- The numbers of a list in ascending order, each once. -/
def sortDedup (l : List Nat) : List Nat := (l.insertionSort (· ≤ ·)).dedup

theorem mem_sortDedup {l : List Nat} {n : Nat} : n ∈ sortDedup l ↔ n ∈ l := by
  rw [sortDedup, mem_dedup, mem_insertionSort]

theorem sortDedup_sorted (l : List Nat) : (sortDedup l).Pairwise (· < ·) := by
  have hle : (sortDedup l).Pairwise (· ≤ ·) := (pairwise_insertionSort (· ≤ ·) l).sublist (dedup_sublist _)
  have hne : (sortDedup l).Pairwise (· ≠ ·) := nodup_dedup _
  exact (hle.and hne).imp fun h => lt_of_le_of_ne h.1 h.2

end Lib
