import Mathlib.Data.List.Nodup
import Mathlib.Logic.Function.Basic
import Mathlib.Tactic.Common

/-!
Doubly linked lists that end in null pointers, in one heap.

A segment has something in front of it and something behind it, each of which may be nothing. Two
segments are one where each has the end of the other at its own, so a list is changed by setting
the two pointers at a seam.
-/

namespace Gpiod.NullList

variable {A : Type}

structure Ptrs (A : Type) where
  next : A → Option A
  prev : A → Option A

/-- The nodes `xs` in this order, with `p` in front of the first and `q` behind the last. -/
def Seg (h : Ptrs A) : Option A → List A → Option A → Prop
  | _, [], _ => True
  | p, x :: xs, q => h.prev x = p ∧ h.next x = xs.head?.or q ∧ Seg h (some x) xs q

/-- The two heaps have the same pointers at a node. -/
def SameAt (h h' : Ptrs A) (a : A) : Prop := h'.next a = h.next a ∧ h'.prev a = h.prev a

variable {h h' : Ptrs A} {p q v : Option A} {a x : A} {xs ys zs : List A}

lemma Seg.congr (hs : Seg h p xs q) (hsame : ∀ a ∈ xs, SameAt h h' a) : Seg h' p xs q := by
  induction xs generalizing p with
  | nil => trivial
  | cons x xs ih =>
    obtain ⟨hprev, hnext, hrest⟩ := hs
    obtain ⟨hx, hxs⟩ := List.forall_mem_cons.mp hsame
    exact ⟨hx.2.trans hprev, hx.1.trans hnext, ih hrest hxs⟩

/-- **Two segments are one** where they meet. -/
lemma seg_append : Seg h p (xs ++ ys) q ↔
    Seg h p xs (ys.head?.or q) ∧ Seg h (xs.getLast?.or p) ys q := by
  induction xs generalizing p with
  | nil => simp [Seg]
  | cons x xs ih =>
    rw [List.cons_append, Seg, Seg, ih]
    have hnext : (xs ++ ys).head?.or q = xs.head?.or (ys.head?.or q) := by
      rw [List.head?_append, Option.or_assoc]
    have hlast : (x :: xs).getLast?.or p = xs.getLast?.or (some x) := by
      rw [List.getLast?_cons]
      cases xs.getLast? <;> rfl
    rw [hnext, hlast, and_assoc, and_assoc]

lemma Seg.next_eq (hs : Seg h p (ys ++ x :: zs) q) : h.next x = zs.head?.or q :=
  (seg_append.mp hs).2.2.1

lemma Seg.prev_eq (hs : Seg h p (ys ++ x :: zs) q) : h.prev x = ys.getLast?.or p :=
  (seg_append.mp hs).2.1

/-! ### Setting pointers -/

variable [DecidableEq A]

def Ptrs.setNext (h : Ptrs A) (a : A) (v : Option A) : Ptrs A :=
  { h with next := Function.update h.next a v }

def Ptrs.setPrev (h : Ptrs A) (a : A) (v : Option A) : Ptrs A :=
  { h with prev := Function.update h.prev a v }

/-- `if(p) p->next = v`. -/
def Ptrs.setNext? (h : Ptrs A) (p v : Option A) : Ptrs A :=
  match p with
  | none => h
  | some p => h.setNext p v

/-- `if(p) p->prev = v`. -/
def Ptrs.setPrev? (h : Ptrs A) (p v : Option A) : Ptrs A :=
  match p with
  | none => h
  | some p => h.setPrev p v

@[simp] lemma setNext_next_self (h : Ptrs A) (a : A) (v : Option A) :
    (h.setNext a v).next a = v := Function.update_self _ _ _
@[simp] lemma setPrev_prev_self (h : Ptrs A) (a : A) (v : Option A) :
    (h.setPrev a v).prev a = v := Function.update_self _ _ _
@[simp] lemma setNext_prev (h : Ptrs A) (a : A) (v : Option A) :
    (h.setNext a v).prev = h.prev := rfl
@[simp] lemma setPrev_next (h : Ptrs A) (a : A) (v : Option A) :
    (h.setPrev a v).next = h.next := rfl
@[simp] lemma setNext?_prev (h : Ptrs A) (p v : Option A) : (h.setNext? p v).prev = h.prev := by
  cases p <;> rfl
@[simp] lemma setPrev?_next (h : Ptrs A) (p v : Option A) : (h.setPrev? p v).next = h.next := by
  cases p <;> rfl

lemma sameAt_setNext (h : Ptrs A) {a x : A} (v : Option A) (hx : x ≠ a) :
    SameAt h (h.setNext a v) x := ⟨Function.update_of_ne hx _ _, rfl⟩

lemma sameAt_setPrev (h : Ptrs A) {a x : A} (v : Option A) (hx : x ≠ a) :
    SameAt h (h.setPrev a v) x := ⟨rfl, Function.update_of_ne hx _ _⟩

lemma sameAt_setNext? (h : Ptrs A) {p : Option A} {x : A} (v : Option A) (hx : p ≠ some x) :
    SameAt h (h.setNext? p v) x := by
  cases p with
  | none => exact ⟨rfl, rfl⟩
  | some p => exact sameAt_setNext h v fun he => hx (he ▸ rfl)

lemma sameAt_setPrev? (h : Ptrs A) {p : Option A} {x : A} (v : Option A) (hx : p ≠ some x) :
    SameAt h (h.setPrev? p v) x := by
  cases p with
  | none => exact ⟨rfl, rfl⟩
  | some p => exact sameAt_setPrev h v fun he => hx (he ▸ rfl)

omit [DecidableEq A] in
lemma SameAt.trans {h₁ h₂ h₃ : Ptrs A} (h12 : SameAt h₁ h₂ x) (h23 : SameAt h₂ h₃ x) :
    SameAt h₁ h₃ x := ⟨h23.1.trans h12.1, h23.2.trans h12.2⟩

lemma Seg.setBack (hs : Seg h p xs q) (hnd : xs.Nodup) (v : Option A) :
    Seg (h.setNext? xs.getLast? v) p xs v := by
  rcases xs.eq_nil_or_concat' with rfl | ⟨ys, y, rfl⟩
  · trivial
  rw [List.getLast?_concat]
  obtain ⟨hfront, hprev, -, -⟩ := seg_append.mp hs
  have hy : y ∉ ys := fun hmem => (List.nodup_append.mp hnd).2.2 y hmem y (by simp) rfl
  refine seg_append.mpr ⟨hfront.congr fun a ha => ?_, hprev, by simp [Ptrs.setNext?], trivial⟩
  exact sameAt_setNext h v (ne_of_mem_of_not_mem ha hy)

lemma Seg.setFront (hs : Seg h p xs q) (hnd : xs.Nodup) (v : Option A) :
    Seg (h.setPrev? xs.head? v) v xs q := by
  cases xs with
  | nil => trivial
  | cons x xs =>
    obtain ⟨-, hnext, hrest⟩ := hs
    have hx := (List.nodup_cons.mp hnd).1
    refine ⟨setPrev_prev_self h x v, hnext, hrest.congr fun a ha => ?_⟩
    exact sameAt_setPrev h v (ne_of_mem_of_not_mem ha hx)

/-! ### Operations -/

/-- A node in front of the list that begins with `head`. -/
def Ptrs.push (h : Ptrs A) (a : A) (head : Option A) : Ptrs A :=
  ((h.setNext a head).setPrev a none).setPrev? head (some a)

/-- A node behind the list that ends with `tail`. -/
def Ptrs.append (h : Ptrs A) (a tail : A) : Ptrs A :=
  ((h.setNext a none).setPrev a (some tail)).setNext tail (some a)

/-- The neighbours of a node are made neighbours. -/
def Ptrs.unlink (h : Ptrs A) (a : A) : Ptrs A :=
  let h' := h.setNext? (h.prev a) (h.next a)
  h'.setPrev? (h'.next a) (h'.prev a)

/-- Of the other nodes only the one in front is touched. -/
lemma sameAt_push (h : Ptrs A) {head : Option A} (hx : x ≠ a) (hhead : head ≠ some x) :
    SameAt h (h.push a head) x :=
  ((sameAt_setNext h _ hx).trans (sameAt_setPrev _ _ hx)).trans (sameAt_setPrev? _ _ hhead)

lemma unlink_eq (hself : h.prev a ≠ some a) :
    h.unlink a = (h.setNext? (h.prev a) (h.next a)).setPrev? (h.next a) (h.prev a) := by
  have hnext := (sameAt_setNext? h (h.next a) hself).1
  unfold Ptrs.unlink
  simp only [hnext, setNext?_prev]

lemma sameAt_unlink (hself : h.prev a ≠ some a) (hprev : h.prev a ≠ some x)
    (hnext : h.next a ≠ some x) : SameAt h (h.unlink a) x := by
  rw [unlink_eq hself]
  exact (sameAt_setNext? h _ hprev).trans (sameAt_setPrev? _ _ hnext)

omit [DecidableEq A] in
lemma head?_ne_of_not_mem (ha : a ∉ xs) : xs.head? ≠ some a :=
  fun he => ha (List.mem_of_head? he)

omit [DecidableEq A] in
lemma getLast?_ne_of_not_mem (ha : a ∉ xs) : xs.getLast? ≠ some a :=
  fun he => ha (List.mem_of_getLast? he)

/-- **Insertion at the front.** -/
lemma Seg.push (hs : Seg h none xs none) (hnd : xs.Nodup) (ha : a ∉ xs) :
    Seg (h.push a xs.head?) none (a :: xs) none := by
  have hset : Seg ((h.setNext a xs.head?).setPrev a none) none xs none :=
    hs.congr fun b hb => (sameAt_setNext h _ (ne_of_mem_of_not_mem hb ha)).trans
      (sameAt_setPrev _ _ (ne_of_mem_of_not_mem hb ha))
  have hkeep := sameAt_setPrev? ((h.setNext a xs.head?).setPrev a none) (some a)
    (head?_ne_of_not_mem ha)
  refine ⟨hkeep.2.trans (by simp), hkeep.1.trans ?_, hset.setFront hnd (some a)⟩
  rw [Option.or_none]
  simp

/-- **Insertion at the back.** -/
lemma Seg.append {tail : A} (hs : Seg h none (xs ++ [tail]) none) (hnd : (xs ++ [tail]).Nodup)
    (ha : a ∉ xs ++ [tail]) : Seg (h.append a tail) none (xs ++ [tail] ++ [a]) none := by
  have hset : Seg ((h.setNext a none).setPrev a (some tail)) none (xs ++ [tail]) none :=
    hs.congr fun b hb => (sameAt_setNext h _ (ne_of_mem_of_not_mem hb ha)).trans
      (sameAt_setPrev _ _ (ne_of_mem_of_not_mem hb ha))
  have hback := hset.setBack hnd (some a)
  rw [List.getLast?_concat] at hback
  have hne : a ≠ tail := fun he => ha (by simp [he])
  have hkeep := sameAt_setNext ((h.setNext a none).setPrev a (some tail)) (some a) hne
  refine seg_append.mpr ⟨hback, ?_, ?_, trivial⟩
  · rw [List.getLast?_concat]
    exact hkeep.2.trans (setPrev_prev_self _ _ _)
  · exact hkeep.1.trans (by simp)

/-- **Removal.** -/
lemma Seg.unlink (hs : Seg h none (ys ++ a :: zs) none) (hnd : (ys ++ a :: zs).Nodup) :
    Seg (h.unlink a) none (ys ++ zs) none := by
  have hprev := hs.prev_eq
  have hnext := hs.next_eq
  obtain ⟨hfront, -, -, hback⟩ := seg_append.mp hs
  obtain ⟨hndy, hnda, hdisj⟩ := List.nodup_append.mp hnd
  have hndz := (List.nodup_cons.mp hnda).2
  have hapart : ∀ b ∈ ys, b ∉ zs := fun b hb hz =>
    hdisj b hb b (List.mem_cons_of_mem a hz) rfl
  rw [Option.or_none] at hprev hnext
  have hself : h.prev a ≠ some a := by
    rw [hprev]
    exact getLast?_ne_of_not_mem fun hmem => hdisj a hmem a List.mem_cons_self rfl
  rw [unlink_eq hself, hprev, hnext]
  refine seg_append.mpr ⟨?_, ?_⟩
  · rw [Option.or_none]
    refine (hfront.setBack hndy zs.head?).congr fun b hb => ?_
    exact sameAt_setPrev? _ _ (head?_ne_of_not_mem (hapart b hb))
  · rw [Option.or_none]
    have hmid : Seg (h.setNext? ys.getLast? zs.head?) (some a) zs none := hback.congr fun b hb =>
      sameAt_setNext? h _ (getLast?_ne_of_not_mem fun hy => hapart b hy hb)
    exact hmid.setFront hndz ys.getLast?

end Gpiod.NullList
