import Mathlib.Data.List.Basic
import Mathlib.Data.Nat.Notation
import Mathlib.Tactic.Common

/-!
Strings in arrays of bytes: what an array holds as a C string, and what the bounded copy
leaves in it.

An array holds a string only where it has a NUL. The bounded copy stores one exactly if the
source is shorter than the bound.
-/

namespace Gpiod.CString

/-- An array of `n` bytes. -/
abbrev Bytes (n : ℕ) := { a : List UInt8 // a.length = n }

/-- The string an array holds: the bytes in front of its first NUL, where it has one. -/
def cstring (a : List UInt8) : Option (List UInt8) :=
  if 0 ∈ a then some (a.takeWhile (· != 0)) else none

/-- The string at an array: the bytes up to the first NUL in it or behind it. -/
def cstringAt (a behind : List UInt8) : List UInt8 := (a ++ behind).takeWhile (· != 0)

/-- `strncpy`: no more than `n` bytes of the source, and NULs up to `n` bytes. -/
def strncpy (dst src : List UInt8) (n : ℕ) : List UInt8 :=
  (src ++ List.replicate n 0).take n ++ dst.drop n

def memset (dst : List UInt8) (c : UInt8) (n : ℕ) : List UInt8 := List.replicate n c ++ dst.drop n

variable {dst src : List UInt8} {n : ℕ}

lemma length_strncpy (h : dst.length = n) : (strncpy dst src n).length = n := by
  simp only [strncpy, List.length_append, List.length_take, List.length_replicate,
    List.length_drop]
  omega

lemma length_memset (c : UInt8) (h : dst.length = n) : (memset dst c n).length = n := by
  simp only [memset, List.length_append, List.length_replicate, List.length_drop]
  omega

lemma cstring_nul (h0 : 0 ∉ src) (l : List UInt8) : cstring (src ++ 0 :: l) = some src := by
  have hmem : (0 : UInt8) ∈ src ++ 0 :: l := by simp
  have hall : ∀ c ∈ src, (c != 0) = true := fun c hc =>
    bne_iff_ne.mpr fun heq => h0 (heq ▸ hc)
  rw [cstring, if_pos hmem, List.takeWhile_append_of_pos hall]
  simp

/-- A string that an array holds is the string at it, whatever stands behind. -/
lemma cstringAt_of_cstring {a s : List UInt8} (h : cstring a = some s) (behind : List UInt8) :
    cstringAt a behind = s := by
  unfold cstring at h
  split at h
  · next hmem =>
    obtain ⟨w, q, rfl, hw⟩ := List.eq_append_cons_of_mem hmem
    have hall : ∀ c ∈ w, (c != 0) = true := fun c hc =>
      bne_iff_ne.mpr fun heq => hw (heq ▸ hc)
    rw [List.takeWhile_append_of_pos hall] at h
    rw [cstringAt, List.append_assoc, List.takeWhile_append_of_pos hall]
    simpa using h
  · cases h

lemma cstring_none {a : List UInt8} (h0 : 0 ∉ a) : cstring a = none := if_neg h0

/-- Of a string that is not shorter than the array only the first bytes are copied. -/
lemma strncpy_long (hd : dst.length = n) (h : n ≤ src.length) : strncpy dst src n = src.take n := by
  rw [strncpy, List.drop_eq_nil_of_le (Nat.le_of_eq hd), List.append_nil, List.take_append,
    Nat.sub_eq_zero_of_le h, List.take_zero, List.append_nil]

/-- **The bounded copy** over a whole array: the string, where it is shorter than the array, and
no string otherwise. -/
theorem cstring_strncpy (hd : dst.length = n) (h0 : 0 ∉ src) :
    cstring (strncpy dst src n) = if src.length < n then some src else none := by
  split
  · next hlt =>
    have hdrop : dst.drop n = [] := List.drop_eq_nil_of_le (Nat.le_of_eq hd)
    obtain ⟨k, rfl⟩ := Nat.exists_eq_add_of_lt hlt
    have hcut : (src ++ List.replicate (src.length + k + 1) 0).take (src.length + k + 1) =
        src ++ 0 :: List.replicate k 0 := by
      rw [List.take_append, List.take_of_length_le (by omega), List.take_replicate,
        ← List.replicate_succ]
      congr 2
      omega
    rw [strncpy, hdrop, List.append_nil, hcut, cstring_nul h0]
  · next hge =>
    rw [strncpy_long hd (by omega)]
    exact cstring_none fun hmem => h0 (List.mem_of_mem_take hmem)

lemma cstring_memset (hd : dst.length = n) (hn : 0 < n) :
    cstring (memset dst 0 n) = some [] := by
  have hdrop : dst.drop n = [] := List.drop_eq_nil_of_le (Nat.le_of_eq hd)
  obtain ⟨k, rfl⟩ := Nat.exists_eq_add_of_lt hn
  rw [memset, hdrop, List.append_nil, List.replicate_succ]
  exact cstring_nul List.not_mem_nil _

end Gpiod.CString
