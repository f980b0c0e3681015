import Mathlib.Data.Int.Notation
import Mathlib.Data.Nat.Notation
import Mathlib.Tactic.Common

/-!
The type `long` of a target, of 32 or of 64 bits.

An integer is converted to it modulo a power of two. An arithmetic result of the unsigned type is
the residue, and read as a `long` it is the balanced one.
-/

namespace Gpiod.CLong

inductive LongWidth
  | w32 | w64
  deriving DecidableEq, Repr

/-- `ULONG_MAX + 1`. -/
def LongWidth.modulus : LongWidth → ℕ
  | w32 => 0x100000000
  | w64 => 0x10000000000000000

/-- `LONG_MAX + 1`. -/
def LongWidth.half : LongWidth → ℕ
  | w32 => 0x80000000
  | w64 => 0x8000000000000000

/-- Conversion to `long`. -/
def toLong (w : LongWidth) (x : ℤ) : ℤ := x.bmod w.modulus

/-- Conversion to `unsigned long`. -/
def toULong (w : LongWidth) (x : ℤ) : ℤ := x % w.modulus

structure IsLong (w : LongWidth) (x : ℤ) : Prop where
  low : -(w.half : ℤ) ≤ x
  high : x < w.half

lemma toLong_toULong (w : LongWidth) (x : ℤ) : toLong w (toULong w x) = toLong w x :=
  Int.emod_bmod x w.modulus

lemma modulus_eq (w : LongWidth) : w.modulus = 2 * w.half := by cases w <;> rfl

lemma toLong_eq {w : LongWidth} {x : ℤ} (h : IsLong w x) : toLong w x = x := by
  obtain ⟨hlow, hhigh⟩ := h
  have hm := modulus_eq w
  exact Int.bmod_eq_of_le_mul_two (by omega) (by omega)

end Gpiod.CLong
