import Mathlib.Data.List.Nodup

/-!
Tables of keys and values in which a new entry is found first and a deletion takes away the
entry found.

With distinct keys such a table is a finite map: finding is membership, and deleting a key
takes away exactly its entry.
-/

namespace Gpiod.Table

variable {κ α : Type*} [DecidableEq κ]

/-- The value of the first entry under a key. -/
def find (t : List (κ × α)) (k : κ) : Option α := (t.find? fun e => e.1 = k).map Prod.snd

/-- The table without the first entry under a key. -/
def del (t : List (κ × α)) (k : κ) : List (κ × α) := t.eraseP fun e => e.1 = k

/-- No key has two entries. -/
def Distinct (t : List (κ × α)) : Prop := (t.map Prod.fst).Nodup

@[simp] lemma find_nil (k : κ) : find ([] : List (κ × α)) k = none := rfl
lemma find_cons (e : κ × α) (t : List (κ × α)) (k : κ) :
    find (e :: t) k = if e.1 = k then some e.2 else find t k := by
  unfold find
  by_cases h : e.1 = k <;> simp [h]

lemma mem_of_find {t : List (κ × α)} {k : κ} {a : α} (h : find t k = some a) : (k, a) ∈ t := by
  induction t with
  | nil => cases h
  | cons e t ih =>
    rw [find_cons] at h
    split at h
    · next he => cases h; rw [← he]; simp
    · exact List.mem_cons_of_mem _ (ih h)

lemma find_eq_none_iff {t : List (κ × α)} {k : κ} :
    find t k = none ↔ ∀ a, (k, a) ∉ t := by
  constructor
  · intro h a ha
    induction t with
    | nil => cases ha
    | cons e t ih =>
      rw [find_cons] at h
      split at h
      · cases h
      · next he =>
        rcases List.mem_cons.mp ha with rfl | ha
        · exact he rfl
        · exact ih h ha
  · intro h
    cases hf : find t k with
    | none => rfl
    | some a => exact absurd (mem_of_find hf) (h a)

lemma del_of_find_none {t : List (κ × α)} {k : κ} (h : find t k = none) : del t k = t := by
  refine List.eraseP_of_forall_not fun e he hk => ?_
  obtain rfl : e.1 = k := by simpa using hk
  exact find_eq_none_iff.mp h e.2 he

lemma find_eq_some_iff {t : List (κ × α)} (ht : Distinct t) {k : κ} {a : α} :
    find t k = some a ↔ (k, a) ∈ t := by
  refine ⟨mem_of_find, fun ha => ?_⟩
  cases hf : find t k with
  | none => exact absurd ha (find_eq_none_iff.mp hf a)
  | some b =>
    have := List.inj_on_of_nodup_map ht ha (mem_of_find hf) rfl
    cases this
    rfl

lemma Distinct.del {t : List (κ × α)} (ht : Distinct t) (k : κ) : Distinct (del t k) :=
  List.Nodup.sublist (List.Sublist.map _ List.eraseP_sublist) ht

lemma mem_del_iff {t : List (κ × α)} (ht : Distinct t) {k : κ} {e : κ × α} :
    e ∈ del t k ↔ e ∈ t ∧ e.1 ≠ k := by
  induction t with
  | nil => simp [Table.del]
  | cons d t ih =>
    rw [Distinct, List.map_cons, List.nodup_cons] at ht
    have hrec := ih ht.2
    unfold Table.del at hrec ⊢
    by_cases hd : d.1 = k
    · rw [List.eraseP_cons_of_pos (by simpa using hd)]
      constructor
      · intro he
        refine ⟨List.mem_cons_of_mem _ he, fun hk => ht.1 ?_⟩
        rw [hd, ← hk]
        exact List.mem_map_of_mem he
      · rintro ⟨he, hk⟩
        rcases List.mem_cons.mp he with rfl | he
        · exact absurd hd hk
        · exact he
    · rw [List.eraseP_cons_of_neg (by simpa using hd), List.mem_cons, List.mem_cons, hrec]
      constructor
      · rintro (rfl | ⟨he, hk⟩)
        · exact ⟨Or.inl rfl, hd⟩
        · exact ⟨Or.inr he, hk⟩
      · rintro ⟨rfl | he, hk⟩
        · exact Or.inl rfl
        · exact Or.inr ⟨he, hk⟩

lemma filter_del {t : List (κ × α)} {k : κ} {p : κ × α → Bool}
    (h : ∀ a, find t k = some a → p (k, a) = false) : (del t k).filter p = t.filter p := by
  induction t with
  | nil => rfl
  | cons e t ih =>
    by_cases he : e.1 = k
    · obtain ⟨k', a⟩ := e
      obtain rfl : k' = k := he
      have hp : p (k', a) = false := h a (by rw [find_cons, if_pos rfl])
      rw [del, List.eraseP_cons_of_pos (by simp), List.filter_cons_of_neg (by simp [hp])]
    · rw [del, List.eraseP_cons_of_neg (by simpa using he), List.filter_cons, List.filter_cons]
      have hrest := ih fun a ha => h a (by rw [find_cons, if_neg he, ha])
      rw [del] at hrest
      rw [hrest]

lemma del_eq_filter {t : List (κ × α)} (ht : Distinct t) (k : κ) :
    del t k = t.filter fun e => e.1 ≠ k := by
  rw [← filter_del (t := t) (k := k) (p := fun e => e.1 ≠ k) fun a _ => by simp]
  refine (List.filter_eq_self.mpr fun e he => ?_).symm
  simpa using ((mem_del_iff ht).mp he).2

end Gpiod.Table
