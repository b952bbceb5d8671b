import Mathlib.Algebra.Order.Ring.Nat
import Mathlib.Data.Vector.Basic

/-!
# `Lib.Codec` — readers that undo writers

A field of a binary format is written by a function to bytes and read by a function that answers the
value and the bytes after it. `Inverse` says that the two agree: what is written is read back whatever
follows it, and whatever is read is what would have been written. A format made of such fields, one after
the other, is read by peeling them off with `bind_eq_ok`.

- `splitBytes`: a field of fixed length.
- `toLe`, `ofLe`: numbers in little-endian bytes, of any width.
-/

namespace Lib.Codec

universe u v

variable {α : Type u} {ε : Type v}

variable {β : Type u} {n : Nat}

/-- A computation that went on came from its first half. -/
theorem bind_eq_ok {x : Except ε α} {f : α → Except ε β} {b : β} (h : x >>= f = .ok b) : ∃ a, x = .ok a ∧ f a = .ok b := by
  cases x with
  | error e => cases h
  | ok a => exact ⟨a, rfl, h⟩

/-- `read` undoes `write` on the values that are `valid`, and reads nothing else. -/
structure Inverse (valid : α → Prop) (write : α → List UInt8) (read : List UInt8 → Except ε (α × List UInt8)) :
    Prop where
  read_write : ∀ {a}, valid a → ∀ rest, read (write a ++ rest) = .ok (a, rest)
  write_read : ∀ {bytes a rest}, read bytes = .ok (a, rest) → valid a ∧ bytes = write a ++ rest

namespace Inverse

variable {valid : α → Prop} {write : α → List UInt8} {read : List UInt8 → Except ε (α × List UInt8)}

/-- What was written is read, and the computation goes on with it. -/
theorem read_bind (h : Inverse valid write read) {a : α} (ha : valid a) (rest : List UInt8)
    (f : α × List UInt8 → Except ε β) : (read (write a ++ rest) >>= f) = f (a, rest) := by
  rw [h.read_write ha]
  rfl

end Inverse

/-! ## Fields of fixed length -/

/-- The first `n` bytes and the rest. -/
def splitBytes (n : Nat) (bytes : List UInt8) : Option (List.Vector UInt8 n × List UInt8) :=
  if h : n ≤ bytes.length then some (⟨bytes.take n, List.length_take_of_le h⟩, bytes.drop n) else none

theorem splitBytes_append (v : List.Vector UInt8 n) (rest : List UInt8) :
    splitBytes n (v.toList ++ rest) = some (v, rest) := by
  obtain ⟨l, rfl⟩ := v
  simp [splitBytes, List.Vector.toList]

theorem splitBytes_eq_some {bytes rest : List UInt8} {v : List.Vector UInt8 n} :
    splitBytes n bytes = some (v, rest) ↔ bytes = v.toList ++ rest := by
  constructor
  · intro h
    unfold splitBytes at h
    split at h
    · cases h
      exact (List.take_append_drop n bytes).symm
    · cases h
  · rintro rfl
    exact splitBytes_append v rest

/-! ## Little-endian numbers -/

/-- The `width` low bytes of a number, least significant first. -/
def toLe : (width : Nat) → Nat → List UInt8
  | 0, _ => []
  | width + 1, x => UInt8.ofNat (x % 256) :: toLe width (x / 256)

/-- The number the bytes stand for. -/
def ofLe : List UInt8 → Nat
  | [] => 0
  | b :: bs => b.toNat + 256 * ofLe bs

@[simp] theorem length_toLe (width x : Nat) : (toLe width x).length = width := by
  induction width generalizing x with
  | zero => rfl
  | succ width ih => rw [toLe, List.length_cons, ih]

theorem ofLe_toLe {width x : Nat} (h : x < 256 ^ width) : ofLe (toLe width x) = x := by
  induction width generalizing x with
  | zero =>
    rw [pow_zero] at h
    exact (Nat.lt_one_iff.mp h).symm
  | succ width ih =>
    rw [pow_succ] at h
    have hlow : (UInt8.ofNat (x % 256)).toNat = x % 256 := by simp
    rw [toLe, ofLe, hlow, ih (Nat.div_lt_of_lt_mul (by rwa [Nat.mul_comm] at h))]
    exact Nat.mod_add_div x 256

theorem ofLe_lt (bytes : List UInt8) : ofLe bytes < 256 ^ bytes.length := by
  induction bytes with
  | nil => exact Nat.one_pos
  | cons b bs ih =>
    have hb : b.toNat < 256 := b.toNat_lt
    rw [ofLe, List.length_cons, pow_succ]
    omega

theorem toLe_ofLe (bytes : List UInt8) : toLe bytes.length (ofLe bytes) = bytes := by
  induction bytes with
  | nil => rfl
  | cons b bs ih =>
    have hb : b.toNat < 256 := b.toNat_lt
    have hlow : (b.toNat + 256 * ofLe bs) % 256 = b.toNat := by omega
    have hhigh : (b.toNat + 256 * ofLe bs) / 256 = ofLe bs := by omega
    rw [ofLe, List.length_cons, toLe, hlow, hhigh, ih, UInt8.ofNat_toNat]

end Lib.Codec
