import Mathlib.Algebra.Ring.Nat
import Mathlib.Data.Fin.Basic

/-!
# `Transport.SequenceBuffer` — the ring of sent packets

The model of `transport/src/sequence_buffer.rs`: a ring of `cap` entries, each stamped with the sequence
number it holds, `-1` for an empty one. The asserts on the sign bit cannot fire: every sequence number a
link puts in is a `u32`.
-/

namespace RallyPoint.Transport

open Function

/-- A ring of `cap` entries indexed by sequence number modulo `cap`. -/
structure SequenceBuffer (α : Type) (cap : Nat) where
  entries : Fin cap → α
  /-- The sequence number each entry holds; `-1` marks an empty entry. -/
  entrySequences : Fin cap → Int
  /-- The next free sequence number. -/
  sequence : Nat

namespace SequenceBuffer

variable {α : Type} [Inhabited α] {cap : Nat} [NeZero cap] (b : SequenceBuffer α cap) (sequence : Nat)

def withCapacity : SequenceBuffer α cap := ⟨fun _ => default, fun _ => -1, 0⟩

def index : Fin cap := Fin.ofNat cap sequence

/-- Whether the ring holds the sequence number. -/
def exists_ : Bool := b.entrySequences (index sequence) = sequence

def get : Option α :=
  if b.entrySequences (index sequence) = sequence then some (b.entries (index sequence)) else none

/-- Empty the entry of `sequence`, if the ring holds it, and return what it held. -/
def remove : SequenceBuffer α cap × Option α :=
  if b.entrySequences (index sequence) = sequence then
    ({ b with
        entries := update b.entries (index sequence) default
        entrySequences := update b.entrySequences (index sequence) (-1) },
      some (b.entries (index sequence)))
  else (b, none)

/-- A full rotation clears everything. -/
def removeEntriesInclusive (first last : Nat) : SequenceBuffer α cap :=
  if last < first then b
  else if cap ≤ last - first then
    { b with entries := fun _ => default, entrySequences := fun _ => -1 }
  else (List.range' first (last + 1 - first)).foldl (fun b s => (b.remove s).1) b

/-- Move the cursor past `sequence`, clearing the entries it passes. -/
def advanceTo : SequenceBuffer α cap :=
  if b.sequence < sequence + 1 then
    { b.removeEntriesInclusive b.sequence sequence with sequence := sequence + 1 }
  else b

/-- Data a full ring or more behind the cursor is ignored. -/
def insert (entry : α) : SequenceBuffer α cap :=
  if sequence < b.sequence ∧ cap ≤ b.sequence - sequence then b
  else
    let b' := b.advanceTo sequence
    { b' with
        entries := update b'.entries (index sequence) entry
        entrySequences := update b'.entrySequences (index sequence) sequence }

/-! ## What the ring holds -/

variable {b} {s t : Nat} {x e : α}

theorem get_withCapacity (s : Nat) : (withCapacity : SequenceBuffer α cap).get s = none := by
  unfold get withCapacity
  have h : ¬ (-1 : Int) = (s : Int) := by omega
  rw [if_neg h]

/-- Removing returns what the ring held. -/
theorem remove_snd (b : SequenceBuffer α cap) (s : Nat) : (b.remove s).2 = b.get s := by
  unfold remove get
  split <;> rfl

/-- Removing an entry leaves the others. -/
theorem get_of_remove (h : (b.remove s).1.get t = some x) : b.get t = some x := by
  unfold remove at h
  split at h
  · unfold get at h ⊢
    by_cases hi : (index t : Fin cap) = index s
    · simp only [hi, update_self] at h
      rw [if_neg (by omega)] at h
      cases h
    · simpa only [update_of_ne hi] using h
  · exact h

theorem get_of_removeEntries {first last : Nat}
    (h : (b.removeEntriesInclusive first last).get t = some x) : b.get t = some x := by
  unfold removeEntriesInclusive at h
  split at h
  · exact h
  · split at h
    · have hempty : ¬ (-1 : Int) = (t : Int) := by omega
      unfold get at h
      simp only [hempty, if_false] at h
      cases h
    · generalize List.range' first (last + 1 - first) = l at h
      induction l generalizing b with
      | nil => exact h
      | cons s l ih => exact get_of_remove (ih h)

/-- **What the ring holds after an insert is the new entry or what it held before.** -/
theorem get_of_insert (h : (b.insert s e).get t = some x) : (t = s ∧ x = e) ∨ b.get t = some x := by
  unfold insert at h
  split at h
  · exact .inr h
  · by_cases hi : (index t : Fin cap) = index s
    · unfold get at h
      simp only [hi, update_self] at h
      split at h
      · rename_i hst
        exact .inl ⟨by omega, (Option.some.inj h).symm⟩
      · cases h
    · unfold get at h
      simp only [update_of_ne hi] at h
      have hadv : (b.advanceTo s).get t = some x := h
      refine .inr ?_
      unfold advanceTo at hadv
      split at hadv
      · exact get_of_removeEntries hadv
      · exact hadv

/-! ## Runs of calls -/

/-- One call on the ring. -/
inductive Call (α : Type) where
  | insert (sequence : Nat) (entry : α)
  | remove (sequence : Nat)

def Call.apply (b : SequenceBuffer α cap) : Call α → SequenceBuffer α cap
  | .insert sequence entry => b.insert sequence entry
  | .remove sequence => (b.remove sequence).1

def run (b : SequenceBuffer α cap) (calls : List (Call α)) : SequenceBuffer α cap := calls.foldl Call.apply b

/-- What the last call about `s` left there: the entry it inserted, or nothing once it was removed. -/
def written (last : Option α) (s : Nat) : List (Call α) → Option α
  | [] => last
  | .insert sequence e :: rest => written (if sequence = s then some e else last) s rest
  | .remove sequence :: rest => written (if sequence = s then none else last) s rest

/-- An insert not a rotation behind the cursor, that skips no number or passes a whole rotation. -/
def Call.Unskipped (b : SequenceBuffer α cap) : Call α → Prop
  | .insert sequence _ => b.sequence < sequence + cap ∧ (sequence ≤ b.sequence ∨ b.sequence + cap ≤ sequence)
  | .remove _ => True

/-- Every call of the run is one. -/
def Unskipped (b : SequenceBuffer α cap) : List (Call α) → Prop
  | [] => True
  | call :: rest => call.Unskipped b ∧ Unskipped (call.apply b) rest

/-- What the ring holds was written last, and is among the newest `cap` sequence numbers. -/
def Newest (b : SequenceBuffer α cap) (last : Nat → Option α) : Prop :=
  ∀ s v, b.get s = some v → last s = some v ∧ b.sequence ≤ s + cap

theorem index_eq_iff : (index s : Fin cap) = index t ↔ s % cap = t % cap := by
  simp [index, Fin.ext_iff, Fin.ofNat]

theorem remove_sequence (b : SequenceBuffer α cap) (s : Nat) : (b.remove s).1.sequence = b.sequence := by
  unfold remove
  split <;> rfl

theorem get_remove_self (b : SequenceBuffer α cap) (s : Nat) : (b.remove s).1.get s = none := by
  have hempty : ¬ (-1 : Int) = (s : Int) := by omega
  unfold remove
  split
  · simp [get, hempty]
  · rename_i hne
    simp [get, hne]

variable {last : Nat → Option α}

theorem Newest.remove (h : b.Newest last) (s : Nat) : (b.remove s).1.Newest fun t => if s = t then none else last t := by
  intro t v hget
  rw [remove_sequence]
  by_cases hst : s = t
  · subst hst
    rw [get_remove_self] at hget
    cases hget
  · simpa only [if_neg hst] using h t v (get_of_remove hget)

/-- **An insert at the cursor writes over the one entry that leaves the newest rotation**; behind it
    nothing moves, and past a whole rotation nothing is left. -/
theorem Newest.insert (h : b.Newest last) (hb : (Call.insert s e).Unskipped b) :
    (b.insert s e).Newest fun t => if s = t then some e else last t := by
  obtain ⟨hnew, hskip⟩ := hb
  have hcap : 0 < cap := Nat.pos_of_neZero cap
  have hsequence : (b.insert s e).sequence = max b.sequence (s + 1) := by
    rw [SequenceBuffer.insert, if_neg (by omega)]
    show (b.advanceTo s).sequence = _
    unfold advanceTo
    split
    · show s + 1 = _
      omega
    · omega
  intro t v hget
  rw [hsequence]
  by_cases hst : s = t
  · subst hst
    obtain ⟨-, rfl⟩ | hold := get_of_insert hget
    · exact ⟨if_pos rfl, by omega⟩
    · -- the entry at `s` is the new one
      have hv : (b.insert s e).get s = some e := by
        simp only [SequenceBuffer.insert]
        rw [if_neg (by omega)]
        simp [get]
      rw [hv] at hget
      exact ⟨(if_pos rfl).trans hget, by omega⟩
  · obtain ⟨rfl, -⟩ | hold := get_of_insert hget
    · exact absurd rfl hst
    · obtain ⟨hlast, hle⟩ := h t v hold
      refine ⟨(if_neg hst).trans hlast, ?_⟩
      -- at the cursor, `t = s - cap` would sit where the new entry is
      by_contra hold'
      simp only [SequenceBuffer.insert, advanceTo, removeEntriesInclusive] at hget
      rw [if_neg (by omega), if_pos (by omega)] at hget
      obtain hat | hpast := hskip
      · have ht : t + cap = s := by omega
        have hindex : (index t : Fin cap) = index s := index_eq_iff.mpr (by rw [← ht, Nat.add_mod_right])
        simp only [get, hindex, update_self] at hget
        rw [if_neg (by omega)] at hget
        cases hget
      · rw [if_neg (by omega), if_pos (by omega)] at hget
        by_cases hindex : (index t : Fin cap) = index s
        · simp only [get, hindex, update_self] at hget
          rw [if_neg (by omega)] at hget
          cases hget
        · simp only [get, update_of_ne hindex] at hget
          rw [if_neg (by omega)] at hget
          cases hget

theorem Newest.run (h : b.Newest last) {calls : List (Call α)} (hcalls : b.Unskipped calls) :
    (b.run calls).Newest fun s => written (last s) s calls := by
  induction calls generalizing b last with
  | nil => exact h
  | cons call rest ih =>
    cases call with
    | insert s e => exact ih (h.insert hcalls.1) hcalls.2
    | remove s => exact ih (h.remove s) hcalls.2

/-- **The ring holds only the newest rotation**, in a run that skips no sequence numbers short of a whole
    rotation and inserts nothing a rotation behind: what `get` returns is the last entry inserted there
    and not removed since, and it is among the newest `cap`. -/
theorem get_is_newest {calls : List (Call α)} (hcalls : (withCapacity : SequenceBuffer α cap).Unskipped calls)
    (hget : (withCapacity.run calls : SequenceBuffer α cap).get s = some x) :
    written none s calls = some x ∧ (withCapacity.run calls : SequenceBuffer α cap).sequence ≤ s + cap := by
  have hstart : (withCapacity : SequenceBuffer α cap).Newest fun _ => none := by
    intro t v hv
    rw [get_withCapacity] at hv
    cases hv
  exact hstart.run hcalls s x hget

/-- The third insert of a ring of two is written over the first. -/
theorem get_is_newest_third :
    written none 1 [Call.insert 0 'a', .insert 1 'b', .insert 2 'c'] = some 'b' ∧
      ((withCapacity : SequenceBuffer Char 2).run [.insert 0 'a', .insert 1 'b', .insert 2 'c']).sequence ≤ 1 + 2 :=
  get_is_newest (by simp [Unskipped, Call.Unskipped, Call.apply, SequenceBuffer.insert, advanceTo, withCapacity]) (by decide)

/-- **A skipped sequence number leaves its old entry**: `remove_entries_inclusive` removes by the new
    sequence numbers, which the previous rotation's entries do not carry. -/
theorem skipped_entry_stays :
    ((withCapacity : SequenceBuffer Char 2).run [.insert 0 'a', .insert 1 'b', .insert 3 'd']).get 0 = some 'a' ∧
      ¬ ((withCapacity : SequenceBuffer Char 2).run [.insert 0 'a', .insert 1 'b', .insert 3 'd']).sequence ≤ 0 + 2 := by
  decide

end SequenceBuffer

end RallyPoint.Transport
