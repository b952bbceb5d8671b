import Mathlib.Algebra.Ring.Nat

/-!
# `Lib.Wire` — the sizes of protobuf fields

A field costs its key, one byte for every field number below 16, and its value: a varint takes a byte for
each seven bits, a length-delimited value its length as a varint and its bytes. A field of implicit
presence that holds its default is not written.
-/

namespace Lib.Wire

/-- The bytes of `n` as a varint. -/
def varintLen (n : Nat) : Nat := n.log2 / 7 + 1

/-- A length-delimited field of `len` bytes. -/
def delimited (len : Nat) : Nat := 1 + varintLen len + len

/-- A varint field with presence. -/
def varintField (n : Nat) : Nat := 1 + varintLen n

/-- A field of implicit presence: nothing is written for the default. -/
def unlessDefault (isDefault : Bool) (len : Nat) : Nat := if isDefault then 0 else len

/-- A field with presence costs nothing when it is absent. -/
def present {α : Type} (len : α → Nat) (field : Option α) : Nat := (field.map len).getD 0

theorem varintLen_le {n k : Nat} (hk : 0 < k) (h : n < 2 ^ (7 * k)) : varintLen n ≤ k := by
  unfold varintLen
  rcases Nat.eq_zero_or_pos n with rfl | hn
  · rw [Nat.log2_zero]
    omega
  · have hlog : n.log2 < 7 * k := (Nat.log2_lt (Nat.pos_iff_ne_zero.mp hn)).mpr h
    omega

theorem varintField_le {n k : Nat} (hk : 0 < k) (h : n < 2 ^ (7 * k)) : varintField n ≤ 1 + k :=
  Nat.add_le_add_left (varintLen_le hk h) 1

theorem unlessDefault_le (isDefault : Bool) (len : Nat) : unlessDefault isDefault len ≤ len := by
  unfold unlessDefault
  split
  · exact Nat.zero_le len
  · exact le_rfl

theorem present_le {α : Type} {len : α → Nat} {bound : Nat} (h : ∀ x, len x ≤ bound) (field : Option α) :
    present len field ≤ bound := by
  cases field with
  | none => exact Nat.zero_le bound
  | some x => exact h x

end Lib.Wire
