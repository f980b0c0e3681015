import Mathlib.Data.List.Infix
import Mathlib.Tactic.Common

/-!
Tables of keywords, searched for the first entry that a word matches.

A match that is looser than equality also takes words that are no keywords. Where no keyword
of the table matches another, the words it goes wrong on are just these.
-/

namespace Gpiod.Keyword

variable {α β : Type*} {m : List α → List α → Bool}

/-- A table of keywords with their codes for a given match: no keyword matches another, and the
code for an unknown word is none of theirs. -/
structure KeywordTable (α β : Type*) (m : List α → List α → Bool) where
  entries : List (List α × β)
  unknown : β
  apart : ∀ e ∈ entries, ∀ e' ∈ entries, m e.1 e'.1 = true → e = e'
  known : ∀ e ∈ entries, e.2 ≠ unknown

/-- The code of the first entry that a word matches. -/
def KeywordTable.lookup (t : KeywordTable α β m) (w : List α) : β :=
  ((t.entries.find? fun e => m w e.1).map Prod.snd).getD t.unknown

/-- A result for a word is the code of its entry, or the one for an unknown word where it has
none. -/
structure Recognises (entries : List (List α × β)) (unknown result : β) (w : List α) : Prop where
  entry : ∀ e ∈ entries, e.1 = w → result = e.2
  other : (∀ e ∈ entries, e.1 ≠ w) → result = unknown

lemma lookup_of_match (t : KeywordTable α β m) {w : List α} {e : List α × β} (he : e ∈ t.entries)
    (hm : m w e.1 = true) : ∃ e' ∈ t.entries, m w e'.1 = true ∧ t.lookup w = e'.2 := by
  have hsome : (t.entries.find? fun e => m w e.1).isSome = true :=
    List.find?_isSome.mpr ⟨e, he, hm⟩
  obtain ⟨e', he'⟩ := Option.isSome_iff_exists.mp hsome
  have hmatch : m w e'.1 = true := List.find?_some (p := fun e : List α × β => m w e.1) he'
  refine ⟨e', List.mem_of_find?_eq_some he', hmatch, ?_⟩
  rw [KeywordTable.lookup, he']
  rfl

lemma lookup_of_none (t : KeywordTable α β m) {w : List α} (h : ∀ e ∈ t.entries, ¬ m w e.1 = true) :
    t.lookup w = t.unknown := by
  rw [KeywordTable.lookup, List.find?_eq_none.mpr h]
  rfl

lemma find?_zipIdx (p : List α → Bool) (names : List (List α)) (k : ℕ) :
    ((names.zipIdx k).find? fun e => p e.1).map Prod.snd = (names.findIdx? p).map (· + k) := by
  induction names generalizing k with
  | nil => rfl
  | cons name names ih =>
    rw [List.zipIdx_cons, List.find?_cons, List.findIdx?_cons]
    cases p name with
    | true => simp
    | false =>
      simp only [Bool.false_eq_true, ↓reduceIte, ih (k + 1), Option.map_map]
      congr 1
      funext i
      simp only [Function.comp_apply]
      omega

/-- **Which words are looked up right**: those that match no keyword but themselves. -/
theorem recognises_iff (t : KeywordTable α β m) (hrefl : ∀ w, m w w = true) (w : List α) :
    Recognises t.entries t.unknown (t.lookup w) w ↔
      ∀ e ∈ t.entries, m w e.1 = true → e.1 = w := by
  constructor
  · intro h e he hm
    by_contra hne
    have hother : ∀ e' ∈ t.entries, e'.1 ≠ w := by
      rintro e' he' rfl
      exact hne (congrArg Prod.fst (t.apart e' he' e he hm)).symm
    obtain ⟨e', he', -, hlook⟩ := lookup_of_match t he hm
    exact t.known e' he' (hlook.symm.trans (h.other hother))
  · intro h
    refine ⟨fun e he hew => ?_, fun hother => lookup_of_none t fun e he hm => ?_⟩
    · subst hew
      obtain ⟨e', he', hm, hlook⟩ := lookup_of_match t he (hrefl e.1)
      rw [hlook, t.apart e he e' he' hm]
    · exact hother e he (h e he hm)

end Gpiod.Keyword
