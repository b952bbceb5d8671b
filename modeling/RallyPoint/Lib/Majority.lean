import Mathlib.Data.List.Nodup
import Mathlib.Data.List.Count

/-!
# `Lib.Majority` — strict majorities of a ballot

A **ballot** is a list of votes, each a voter with the value it voted for. `majority?` is the value that
more than half of `count` votes name, where `count` is at least the number of votes cast.

The one fact a verdict rests on is `majority_of_honest`: when the honest voters agree and at most one
voter is not honest, a majority on a ballot with an honest vote is the honest value.
-/

namespace Lib.Majority

open List

universe u v

variable {α : Type u} {β : Type v} [DecidableEq β]

/-- How many votes name `b`. -/
def votesFor (votes : List (α × β)) (b : β) : Nat := votes.countP (·.2 = b)

/-- The value that more than half of `count` votes name. -/
def majority? (count : Nat) (votes : List (α × β)) : Option β :=
  (votes.find? fun vote => count < votesFor votes vote.2 * 2).map (·.2)

variable {votes : List (α × β)} {count : Nat} {b : β}

theorem majority?_eq_some (h : majority? count votes = some b) : count < votesFor votes b * 2 := by
  obtain ⟨vote, hfind, rfl⟩ := Option.map_eq_some_iff.mp h
  simpa using find?_some hfind

/-- Voters that are all the same one cast at most one vote. -/
theorem votesFor_le_one (hnodup : (votes.map Prod.fst).Nodup)
    (hsame : ∀ x ∈ votes, ∀ y ∈ votes, x.2 = b → y.2 = b → x.1 = y.1) : votesFor votes b ≤ 1 := by
  unfold votesFor
  rw [countP_eq_length_filter]
  have hmem : ∀ x ∈ votes.filter (·.2 = b), x ∈ votes ∧ x.2 = b := fun x hx =>
    ⟨mem_of_mem_filter hx, of_decide_eq_true (mem_filter.mp hx).2⟩
  have hsub : ((votes.filter (·.2 = b)).map Prod.fst).Nodup := hnodup.sublist (filter_sublist.map Prod.fst)
  generalize votes.filter (·.2 = b) = those at hmem hsub
  rcases those with _ | ⟨x, _ | ⟨y, rest⟩⟩
  · exact Nat.zero_le 1
  · exact Nat.le_refl 1
  · -- two of them would be one voter on the ballot twice
    obtain ⟨hx, hxb⟩ := hmem x mem_cons_self
    obtain ⟨hy, hyb⟩ := hmem y (mem_cons_of_mem x mem_cons_self)
    rw [map_cons, map_cons, hsame x hx y hy hxb hyb] at hsub
    exact absurd mem_cons_self (nodup_cons.mp hsub).1

/-- **A majority on a ballot with an honest vote is the honest value**, when each voter votes once, the
    honest agree, and at most one voter is not honest. -/
theorem majority_of_honest {honest : α → Prop} {v : β} (hnodup : (votes.map Prod.fst).Nodup)
    (hagree : ∀ x ∈ votes, honest x.1 → x.2 = v) (hone : ∀ a c, ¬ honest a → ¬ honest c → a = c)
    (hcount : votes.length ≤ count) (hmaj : majority? count votes = some b) {x : α × β} (hx : x ∈ votes)
    (hhonest : honest x.1) : b = v := by
  by_contra hne
  have hle : votesFor votes b ≤ 1 := by
    apply votesFor_le_one hnodup
    intro y hy z hz hyb hzb
    apply hone
    · intro h; exact hne (hyb.symm.trans (hagree y hy h))
    · intro h; exact hne (hzb.symm.trans (hagree z hz h))
  have hmore := majority?_eq_some hmaj
  -- one vote for `b` and the honest one: two votes, of which one is no majority
  have hlt : votesFor votes b < votes.length := by
    unfold votesFor
    rw [countP_lt_length_iff]
    exact ⟨x, hx, by simpa [hagree x hx hhonest] using fun h => hne h.symm⟩
  omega

end Lib.Majority
