import Mathlib.Algebra.Ring.Nat
import Mathlib.Data.Fin.Basic

/-!
# `Lib.Word` — bounded machine words over the naturals

Values read off the wire have a bounded type (`U32`, `U64`); arithmetic is done on their natural values,
and every operation that a machine word could not represent is explicit: the **checked** operations
answer `none`, the **saturating** ones stop at the bound. A plain `+` or `-` of the program is written
with the checked form, so that an overflow shows up as a missing result.
-/

namespace Lib

abbrev U32 := Fin (2 ^ 32)

instance U32.neZero : NeZero (2 ^ 32) := ⟨by decide⟩

abbrev U64 := Fin (2 ^ 64)

instance U64.neZero : NeZero (2 ^ 64) := ⟨by decide⟩

/-- The largest `u32`. -/
def u32Max : Nat := 2 ^ 32 - 1

/-- The largest `u64`. -/
def u64Max : Nat := 2 ^ 64 - 1

theorem u32Max_lt : u32Max < 2 ^ 32 := by decide

theorem u64Max_lt : u64Max < 2 ^ 64 := by decide

theorem U64.le_max (x : U64) : (x : Nat) ≤ u64Max := Nat.le_sub_one_of_lt x.isLt

/-- Addition that fails above `max`. -/
def checkedAdd (max a b : Nat) : Option Nat := if a + b ≤ max then some (a + b) else none

/-- Subtraction that fails below zero. -/
def checkedSub (a b : Nat) : Option Nat := if b ≤ a then some (a - b) else none

/-- Addition that stops at `max`. -/
def saturatingAdd (max a b : Nat) : Nat := min (a + b) max

theorem checkedAdd_of_le {max a b : Nat} (h : a + b ≤ max) : checkedAdd max a b = some (a + b) := if_pos h

theorem checkedSub_of_le {a b : Nat} (h : b ≤ a) : checkedSub a b = some (a - b) := if_pos h

end Lib
