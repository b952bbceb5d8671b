import Mathlib.Data.List.Infix
import Mathlib.Order.Bounds.Basic

/-!
# `Lib.Framing` — strings of self-delimiting words

A `Framing` reads, at the start of a string, how long the word there is. The length is **decided by the
word itself** (`stable`) and is never zero, so a string splits into words in at most one way, and a
left-to-right walk finds the split.

## Contents
- `IsWord`, `AllWords`: a word, a list of words. `Stuck`: no word starts here.
- `flatten_compare`: two lists of words that start the same string agree as far as both go.
- `flatten_injective`: a string is the concatenation of at most one list of words.
- `stuck_isGreatest`: where the walk stops is the end of the longest start of the string that is made of
  words.
-/

namespace Lib

open List

universe u

/-- A reader of word lengths over an alphabet. -/
structure Framing (α : Type u) where
  /-- The length of the word at the start of the string, if it can be told. -/
  len : List α → Option Nat
  pos : ∀ {s n}, len s = some n → 0 < n
  stable : ∀ {s n}, len s = some n → n ≤ s.length → ∀ t, len (s.take n ++ t) = some n

namespace Framing

variable {α : Type u} (F : Framing α)

/-- The string is one word. -/
def IsWord (c : List α) : Prop := F.len c = some c.length

/-- Every string of the list is a word. -/
def AllWords (cs : List (List α)) : Prop := ∀ c ∈ cs, F.IsWord c

/-- No word starts the string. -/
def Stuck (s : List α) : Prop := ∀ n, F.len s = some n → s.length < n

variable {F}

variable {cs ds : List (List α)} {c : List α} {s : List α}

theorem IsWord.len_append (hc : F.IsWord c) (t : List α) : F.len (c ++ t) = some c.length := by
  have h := F.stable hc le_rfl t
  rwa [take_length] at h

theorem IsWord.ne_nil (hc : F.IsWord c) : c ≠ [] := by
  rintro rfl
  exact absurd (F.pos hc) (lt_irrefl 0)

theorem IsWord.length_pos (hc : F.IsWord c) : 0 < c.length := F.pos hc

/-- What a length that fits cuts off is a word. -/
theorem isWord_take {n : Nat} (hn : F.len s = some n) (hle : n ≤ s.length) : F.IsWord (s.take n) := by
  have h := F.stable hn hle []
  rw [append_nil] at h
  rw [IsWord, h, length_take, min_eq_left hle]

theorem Stuck.not_append (hs : F.Stuck s) {t : List α} (hc : F.IsWord c) : s ≠ c ++ t := by
  rintro rfl
  have h := hs _ (hc.len_append t)
  rw [length_append] at h
  omega

theorem allWords_nil : F.AllWords [] := fun _ h => nomatch h

theorem allWords_cons : F.AllWords (c :: cs) ↔ F.IsWord c ∧ F.AllWords cs := forall_mem_cons

theorem allWords_append : F.AllWords (cs ++ ds) ↔ F.AllWords cs ∧ F.AllWords ds := forall_mem_append

/-- Two words that start the same string are the same. -/
theorem IsWord.eq_of_append {d r : List α} (hc : F.IsWord c) (hd : F.IsWord d) (h : c ++ r = d ++ s) : c = d ∧ r = s := by
  have h₁ := hc.len_append r
  rw [h, hd.len_append s] at h₁
  exact append_inj h (Option.some.inj h₁).symm

/-- **Two lists of words that start the same string agree as far as both go.** -/
theorem flatten_compare {r : List α} (hc : F.AllWords cs) (hd : F.AllWords ds)
    (h : cs.flatten ++ r = ds.flatten ++ s) :
    (∃ t, ds = cs ++ t ∧ r = t.flatten ++ s) ∨ ∃ t, cs = ds ++ t ∧ s = t.flatten ++ r := by
  induction cs generalizing ds with
  | nil => exact .inl ⟨ds, rfl, h⟩
  | cons c cs ih =>
    cases ds with
    | nil => exact .inr ⟨c :: cs, rfl, h.symm⟩
    | cons d ds =>
      obtain ⟨hcw, hcs⟩ := allWords_cons.mp hc
      obtain ⟨hdw, hds⟩ := allWords_cons.mp hd
      rw [flatten_cons, flatten_cons, append_assoc, append_assoc] at h
      obtain ⟨rfl, htail⟩ := hcw.eq_of_append hdw h
      obtain ⟨t, rfl, hr⟩ | ⟨t, rfl, hs⟩ := ih hcs hds htail
      · exact .inl ⟨t, rfl, hr⟩
      · exact .inr ⟨t, rfl, hs⟩

theorem flatten_eq_nil (hc : F.AllWords cs) (h : cs.flatten = []) : cs = [] := by
  cases cs with
  | nil => rfl
  | cons c cs =>
    rw [flatten_cons, append_eq_nil_iff] at h
    exact absurd h.1 (allWords_cons.mp hc).1.ne_nil

/-- A string is the concatenation of at most one list of words. -/
theorem flatten_injective (hc : F.AllWords cs) (hd : F.AllWords ds) (h : cs.flatten = ds.flatten) : cs = ds := by
  have h' : cs.flatten ++ [] = ds.flatten ++ [] := by rw [h]
  obtain ⟨t, rfl, ht⟩ | ⟨t, rfl, ht⟩ := flatten_compare hc hd h'
  · rw [append_nil] at ht
    rw [flatten_eq_nil (allWords_append.mp hd).2 ht.symm, append_nil]
  · rw [append_nil] at ht
    rw [flatten_eq_nil (allWords_append.mp hc).2 ht.symm, append_nil]

/-- **The walk stops at the end of the longest start of the string that is made of words.** -/
theorem stuck_isGreatest {r : List α} (hc : F.AllWords cs) (hr : F.Stuck r) :
    IsGreatest {n | ∃ ds, F.AllWords ds ∧ ds.flatten <+: cs.flatten ++ r ∧ n = ds.flatten.length} cs.flatten.length := by
  refine ⟨⟨cs, hc, prefix_append _ _, rfl⟩, ?_⟩
  rintro n ⟨ds, hd, ⟨s, hs⟩, rfl⟩
  obtain ⟨t, rfl, -⟩ | ⟨t, rfl, ht⟩ := flatten_compare hd hc hs
  · simp
  · -- a list of words that goes on past `cs` starts `r` with a word
    cases t with
    | nil => simp
    | cons c t =>
      have hcw := (allWords_cons.mp (allWords_append.mp hd).2).1
      rw [flatten_cons, append_assoc] at ht
      exact absurd ht (hr.not_append hcw)

end Framing
end Lib
