import Mathlib.Algebra.Order.Field.Rat
import Mathlib.Tactic.Positivity
import Mathlib.Tactic.FieldSimp
import Mathlib.Tactic.Ring
import Gpiod.Frames
import Gpiod.Numeral

/-!
Decimal fractions as strings of bytes, read as rational numbers.

The weight of the digits behind the point depends on how many there are, so a fraction has
to be filled up to the width that its unit asks for.
-/

namespace Gpiod.Decimal

open Gpiod.Frames Gpiod.Numeral

/-- The digits behind the point. -/
def readFraction (l : List UInt8) : Option ℚ :=
  (readNumeral l).map fun v : ℕ => (v : ℚ) / 10 ^ l.length

def readDecimal (l : List UInt8) : Option ℚ := do
  let (whole, fraction) ← cut [0x2e] l
  let seconds ← readNumeral whole
  let part ← readFraction fraction
  return (seconds : ℚ) + part

/-- The number of digits behind the point. -/
def fractionDigits (l : List UInt8) : Option ℕ := (cut [0x2e] l).map fun p => p.2.length

/-- The text `seconds.fraction`, the fraction filled up to a width. -/
def pointed (whole fraction width : ℕ) : List UInt8 :=
  numeral whole ++ ([0x2e] ++ (numeral fraction).leftpad width 0x30)

/-! ### The width of a numeral -/

lemma length_numeral_le_iff {n k : ℕ} (hk : 0 < k) : (numeral n).length ≤ k ↔ n < 10 ^ k := by
  rw [numeral, List.length_map]
  exact Nat.length_toDigits_le_iff (by decide) hk

lemma length_numeral_eq {n k : ℕ} (hk : 10 ^ (k + 1) ≤ n) (hlt : n < 10 ^ (k + 2)) :
    (numeral n).length = k + 2 := by
  have hle : (numeral n).length ≤ k + 2 := (length_numeral_le_iff (by omega)).mpr hlt
  have hgt : ¬ (numeral n).length ≤ k + 1 := fun h =>
    absurd ((length_numeral_le_iff (by omega)).mp h) (Nat.not_lt.mpr hk)
  omega

/-! ### Reading -/

lemma cut_pointed (whole fraction width : ℕ) : cut [0x2e] (pointed whole fraction width) =
    some (numeral whole, (numeral fraction).leftpad width 0x30) := by
  have hpoint : (0x2e : UInt8) ∉ numeral whole := fun hc =>
    absurd (numeral_digits whole _ hc) (by decide)
  exact cut_append hpoint _

lemma fractionDigits_pointed (whole fraction width : ℕ) :
    fractionDigits (pointed whole fraction width) = some (max width (numeral fraction).length) := by
  rw [fractionDigits, cut_pointed, Option.map_some, List.length_leftpad]

/-- **Reading a decimal**: the fraction counts in the unit of its last printed digit. -/
theorem readDecimal_pointed (whole fraction width : ℕ) :
    readDecimal (pointed whole fraction width) =
      some ((whole : ℚ) + fraction / 10 ^ max width (numeral fraction).length) := by
  unfold readDecimal readFraction
  rw [cut_pointed]
  simp only [bind, Option.bind, readNumeral_numeral, readNumeral_leftpad, Option.map_some,
    List.length_leftpad]
  rfl

end Gpiod.Decimal
