import Mathlib.Data.Nat.Digits.Defs
import Mathlib.Tactic.Common

/-!
Decimal numerals as strings of bytes: written, filled up with zeros to a width, and read
back.
-/

namespace Gpiod.Numeral

def isDigit (c : UInt8) : Bool := decide (0x30 ≤ c.toNat) && decide (c.toNat ≤ 0x39)

/-- The digits of a number, the first one not zero unless it is the only one. -/
def numeral (n : ℕ) : List UInt8 := (Nat.toDigits 10 n).map Char.toUInt8

def digitValue (c : UInt8) : ℕ := c.toNat - 0x30

/-- The value of the digits, read behind digits of a given value. -/
def value (v : ℕ) (l : List UInt8) : ℕ := l.foldl (fun v c => 10 * v + digitValue c) v

/-- Reads a decimal integer: one digit or more, and nothing else. -/
def readNumeral (l : List UInt8) : Option ℕ :=
  if l ≠ [] ∧ l.all isDigit = true then some (value 0 l) else none

@[simp] lemma value_nil (v : ℕ) : value v [] = v := rfl
@[simp] lemma value_cons (v : ℕ) (c : UInt8) (l : List UInt8) :
    value v (c :: l) = value (10 * v + digitValue c) l := by
  simp only [value, List.foldl_cons]
lemma value_append (v : ℕ) (l m : List UInt8) : value v (l ++ m) = value (value v l) m :=
  List.foldl_append

lemma value_zeros (k : ℕ) (l : List UInt8) :
    value 0 (List.replicate k 0x30 ++ l) = value 0 l := by
  induction k with
  | zero => simp
  | succ k ih =>
    have h0 : 10 * 0 + digitValue 0x30 = 0 := by decide
    rw [List.replicate_succ, List.cons_append, value_cons, h0]
    exact ih

/-! ### Bounds -/

lemma digitValue_le {c : UInt8} (h : isDigit c = true) : digitValue c ≤ 9 := by
  simp only [isDigit, Bool.and_eq_true, decide_eq_true_eq] at h
  unfold digitValue
  omega

lemma value_lt {l : List UInt8} (h : ∀ c ∈ l, isDigit c = true) (v : ℕ) :
    value v l < (v + 1) * 10 ^ l.length := by
  induction l generalizing v with
  | nil => simp
  | cons c l ih =>
    have hc := digitValue_le (h c List.mem_cons_self)
    have hl := ih (fun d hd => h d (List.mem_cons_of_mem c hd)) (10 * v + digitValue c)
    rw [value_cons, List.length_cons, Nat.pow_succ']
    calc value (10 * v + digitValue c) l
        < (10 * v + digitValue c + 1) * 10 ^ l.length := hl
      _ ≤ ((v + 1) * 10) * 10 ^ l.length := Nat.mul_le_mul_right _ (by omega)
      _ = (v + 1) * (10 * 10 ^ l.length) := Nat.mul_assoc _ _ _

lemma value_ge (v : ℕ) (l : List UInt8) : v * 10 ^ l.length ≤ value v l := by
  induction l generalizing v with
  | nil => simp
  | cons c l ih =>
    rw [value_cons, List.length_cons, Nat.pow_succ', ← Nat.mul_assoc]
    exact (Nat.mul_le_mul_right _ (by omega)).trans (ih _)

lemma value_take {k : ℕ} {l : List UInt8} (h : k < l.length) :
    10 * value 0 (l.take k) ≤ value 0 l := by
  have hdrop : (l.drop k).length ≠ 0 := by
    rw [List.length_drop]
    omega
  have hge := value_ge (value 0 (l.take k)) (l.drop k)
  rw [← value_append, List.take_append_drop] at hge
  calc 10 * value 0 (l.take k)
      = value 0 (l.take k) * 10 := Nat.mul_comm _ _
    _ ≤ value 0 (l.take k) * 10 ^ (l.drop k).length :=
        Nat.mul_le_mul_left _ (Nat.le_self_pow hdrop 10)
    _ ≤ value 0 l := hge

/-! ### One digit -/

lemma digit_toNat {d : ℕ} (h : d < 10) : d.digitChar.toUInt8.toNat = 0x30 + d := by
  have := Nat.toNat_digitChar_of_lt_ten h
  have hmod : d.digitChar.toUInt8.toNat = d.digitChar.toNat % 256 := rfl
  omega

lemma isDigit_digit {d : ℕ} (h : d < 10) : isDigit d.digitChar.toUInt8 = true := by
  unfold isDigit
  rw [digit_toNat h]
  simp only [Bool.and_eq_true, decide_eq_true_eq]
  omega

lemma value_digit (v : ℕ) {d : ℕ} (h : d < 10) :
    value v [d.digitChar.toUInt8] = 10 * v + d := by
  have hd : digitValue d.digitChar.toUInt8 = d := by
    rw [digitValue, digit_toNat h]
    omega
  rw [value_cons, value_nil, hd]

lemma numeral_digit {n : ℕ} (h : n < 10) : numeral n = [n.digitChar.toUInt8] := by
  rw [numeral, Nat.toDigits_of_lt_base h]
  rfl

lemma numeral_more {n : ℕ} (h : 10 ≤ n) :
    numeral n = numeral (n / 10) ++ [(n % 10).digitChar.toUInt8] := by
  rw [numeral, Nat.toDigits_of_base_le (by decide) h, List.map_append]
  rfl

/-! ### Numerals -/

lemma numeral_digits (n : ℕ) : ∀ c ∈ numeral n, isDigit c = true := by
  induction n using Nat.strong_induction_on with
  | _ n ih =>
    intro c hc
    rcases Nat.lt_or_ge n 10 with h | h
    · rw [numeral_digit h, List.mem_singleton] at hc
      exact hc ▸ isDigit_digit h
    · rw [numeral_more h, List.mem_append, List.mem_singleton] at hc
      rcases hc with hc | rfl
      · exact ih (n / 10) (by omega) c hc
      · exact isDigit_digit (by omega)

lemma value_numeral (n : ℕ) : value 0 (numeral n) = n := by
  induction n using Nat.strong_induction_on with
  | _ n ih =>
    rcases Nat.lt_or_ge n 10 with h | h
    · rw [numeral_digit h, value_digit 0 h]
      omega
    · rw [numeral_more h, value_append, ih (n / 10) (by omega), value_digit _ (by omega)]
      omega

lemma numeral_ne_nil (n : ℕ) : numeral n ≠ [] := by
  simp [numeral, Nat.toDigits_ne_nil]

lemma length_numeral_le {n k : ℕ} (hk : 0 < k) (h : n < 10 ^ k) : (numeral n).length ≤ k := by
  rw [numeral, List.length_map]
  exact Nat.toDigits_length 10 n k hk h

/-! ### Numerals of a width -/

lemma leftpad_digits (n w : ℕ) : ∀ c ∈ (numeral n).leftpad w 0x30, isDigit c = true := by
  intro c hc
  rcases List.mem_append.mp hc with hc | hc
  · rw [List.eq_of_mem_replicate hc]
    decide
  · exact numeral_digits n c hc

/-- **Reading back**: a numeral filled up with zeros reads as the number it was written for. -/
theorem readNumeral_leftpad (n w : ℕ) : readNumeral ((numeral n).leftpad w 0x30) = some n := by
  have hne : (numeral n).leftpad w 0x30 ≠ [] :=
    List.append_ne_nil_of_right_ne_nil _ (numeral_ne_nil n)
  have hall : ((numeral n).leftpad w 0x30).all isDigit = true :=
    List.all_eq_true.mpr (leftpad_digits n w)
  have hval : value 0 ((numeral n).leftpad w 0x30) = n :=
    (value_zeros _ _).trans (value_numeral n)
  rw [readNumeral, if_pos ⟨hne, hall⟩, hval]

theorem readNumeral_numeral (n : ℕ) : readNumeral (numeral n) = some n := by
  simpa [List.leftpad] using readNumeral_leftpad n 0

end Gpiod.Numeral
