import Mathlib.Data.List.Basic
import Mathlib.Data.Nat.Notation

/-!
Masks of flags joined from codes.

A list of items, each standing for a code, is joined to one mask by OR; a field of bits is
set in it exactly if some item sets it, so what an item adds is never taken away by another.
-/

namespace Gpiod.Mask

variable {α : Type*} (code : α → ℕ)

/-- The codes of the items joined to a mask. -/
def join (f : ℕ) (ws : List α) : ℕ := ws.foldl (fun f w => f ||| code w) f

@[simp] lemma join_nil (f : ℕ) : join code f [] = f := rfl
@[simp] lemma join_cons (f : ℕ) (w : α) (ws : List α) :
    join code f (w :: ws) = join code (f ||| code w) ws := rfl

lemma join_append (f : ℕ) (vs ws : List α) :
    join code f (vs ++ ws) = join code (join code f vs) ws := List.foldl_append

lemma or_and_eq_zero_iff {f g m : ℕ} : (f ||| g) &&& m = 0 ↔ f &&& m = 0 ∧ g &&& m = 0 := by
  rw [Nat.and_or_distrib_right, Nat.or_eq_zero_iff]

lemma join_and_eq_zero_iff {f m : ℕ} {ws : List α} :
    join code f ws &&& m = 0 ↔ f &&& m = 0 ∧ ∀ w ∈ ws, code w &&& m = 0 := by
  induction ws generalizing f with
  | nil => simp
  | cons w ws ih =>
    rw [join_cons, ih, or_and_eq_zero_iff, List.forall_mem_cons, and_assoc]

/-- **What a joined mask sets** is what some item sets. -/
theorem join_zero_and_ne_zero_iff {m : ℕ} {ws : List α} :
    join code 0 ws &&& m ≠ 0 ↔ ∃ w ∈ ws, code w &&& m ≠ 0 := by
  rw [Ne, join_and_eq_zero_iff]
  simp

/-! ### Masks inside masks -/

lemma or_or_eq_iff {f g m : ℕ} : (f ||| g) ||| m = m ↔ f ||| m = m ∧ g ||| m = m := by
  constructor
  · intro h
    refine ⟨?_, ?_⟩
    · rw [← h, ← Nat.or_assoc, ← Nat.or_assoc, Nat.or_self]
    · rw [← h, ← Nat.or_assoc, Nat.or_comm g, Nat.or_assoc f, Nat.or_self]
  · rintro ⟨hf, hg⟩
    rw [Nat.or_assoc, hg, hf]

lemma join_or_eq_iff {f m : ℕ} {ws : List α} :
    join code f ws ||| m = m ↔ f ||| m = m ∧ ∀ w ∈ ws, code w ||| m = m := by
  induction ws generalizing f with
  | nil => simp
  | cons w ws ih => rw [join_cons, ih, or_or_eq_iff, List.forall_mem_cons, and_assoc]

/-- More items join to the same mask exactly if each of them lies inside it. -/
theorem join_eq_iff_of_subset {vs ws : List α} (h : vs ⊆ ws) :
    join code 0 ws = join code 0 vs ↔ ∀ w ∈ ws, code w ||| join code 0 vs = join code 0 vs := by
  have hself : ∀ us : List α, ∀ u ∈ us, code u ||| join code 0 us = join code 0 us := fun us =>
    ((join_or_eq_iff code).mp (Nat.or_self (join code 0 us))).2
  have hle : join code 0 vs ||| join code 0 ws = join code 0 ws :=
    (join_or_eq_iff code).mpr ⟨Nat.zero_or _, fun v hv => hself ws v (h hv)⟩
  constructor
  · intro heq w hw
    rw [← heq]
    exact hself ws w hw
  · intro hin
    have hge := (join_or_eq_iff code (f := 0)).mpr ⟨Nat.zero_or _, hin⟩
    rw [← hle, Nat.or_comm]
    exact hge

end Gpiod.Mask
