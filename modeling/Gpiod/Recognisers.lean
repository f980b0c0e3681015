import Gpiod.Config
import Gpiod.Keyword
import Gpiod.TabScan

/-!
The four functions that recognise keywords: modifiers and special arguments of a tab line,
facilities and edges of the configuration.

Those for a tab line compare over the length of the word, and so take the beginnings of
keywords, too; those for the configuration compare over the length of the keyword, and take
what begins with one. For ONESHOT the index plus one is not the enumerator.
-/

namespace Gpiod.Recognisers

open Gpiod.Pin Gpiod.TabScan Gpiod.Config Gpiod.Keyword

/-! ### Keywords and their enumerators -/

def modKeywords : List (Str × ℕ) :=
  [(bytes "EDGE_RISING", hooktabModRise), (bytes "EDGE_FALLING", hooktabModFall),
    (bytes "EDGE_BOTH", hooktabModRise ||| hooktabModFall), (bytes "NO_LOOP", hooktabModNoLoop),
    (bytes "ONESHOT", hooktabModOneshot)]

/-- The entries of an array, for a function that stores its result. -/
def stored {α : Type} (array : List (Str × α)) : List (Str × Option α) :=
  array.map fun e => (e.1, some e.2)

/-- The word begins a keyword and is none itself. -/
def Begins (names : List Str) (w : Str) : Prop := ∃ name ∈ names, w <+: name ∧ w ≠ name

/-- A keyword begins the word, which is none itself. -/
def Extends (names : List Str) (w : Str) : Prop := ∃ name ∈ names, name <+: w ∧ w ≠ name

/-- The four functions do with a word what they are for. -/
structure RecognisedRight (w : Str) : Prop where
  mod : Recognises modKeywords hooktabModMax (tabParseMod w) w
  args : Recognises gpiodSpecialArgsArray .max (tabParseArgs w) w
  facility : Recognises (stored gpiodFacilityArray) none (confParseFacility w) w
  edge : Recognises (stored gpiodEdgeArray) none (confParseEdge w) w

/-! ### The tables that are searched -/

/-- `strncmp` over the length of the word. -/
def overWord (w name : Str) : Bool := strncmpEq w name w.length

/-- `strncmp` over the length of the keyword. -/
def overKeyword (w name : Str) : Bool := strncmpEq name w name.length

lemma overWord_iff (w name : Str) : overWord w name = true ↔ w <+: name := by
  rw [overWord, strncmpEq_length, List.isPrefixOf_iff_prefix]

lemma overKeyword_iff (w name : Str) : overKeyword w name = true ↔ name <+: w := by
  rw [overKeyword, strncmpEq_length, List.isPrefixOf_iff_prefix]

/-- The modifiers with what `tab_parse_mod` returns for them. -/
def modTable : KeywordTable UInt8 ℕ overWord where
  entries := gpiodHookModifies.zipIdx 1
  unknown := hooktabModMax
  apart := by decide
  known := by decide

def argTable : KeywordTable UInt8 HooktabArgs overWord where
  entries := gpiodSpecialArgsArray
  unknown := .max
  apart := by decide
  known := by decide

def facilityTable : KeywordTable UInt8 (Option GpiodFacility) overKeyword where
  entries := stored gpiodFacilityArray
  unknown := none
  apart := by decide
  known := by decide

def edgeTable : KeywordTable UInt8 (Option GpiodEdge) overKeyword where
  entries := stored gpiodEdgeArray
  unknown := none
  apart := by decide
  known := by decide

lemma tabParseMod_eq (w : Str) : tabParseMod w = modTable.lookup w := by
  have hfind := find?_zipIdx (overWord w) gpiodHookModifies 1
  unfold tabParseMod KeywordTable.lookup modTable
  simp only
  rw [hfind]
  unfold overWord
  cases gpiodHookModifies.findIdx? fun name => strncmpEq w name w.length <;> rfl

lemma tabParseArgs_eq (w : Str) : tabParseArgs w = argTable.lookup w := by
  unfold tabParseArgs KeywordTable.lookup argTable overWord
  cases gpiodSpecialArgsArray.find? fun e => strncmpEq w e.1 w.length <;> rfl

lemma find?_stored {α : Type} (array : List (Str × α)) (w : Str) :
    (((stored array).find? fun e => overKeyword w e.1).map Prod.snd).getD none =
      confParse array w := by
  have hcomp : ((fun e : Str × Option α => overKeyword w e.1) ∘
      fun e : Str × α => (e.1, some e.2)) = fun e => strncmpEq e.1 w e.1.length := rfl
  rw [stored, List.find?_map, hcomp, confParse]
  cases array.find? fun e => strncmpEq e.1 w e.1.length <;> rfl

lemma confParseFacility_eq (w : Str) : confParseFacility w = facilityTable.lookup w :=
  (find?_stored gpiodFacilityArray w).symm

lemma confParseEdge_eq (w : Str) : confParseEdge w = edgeTable.lookup w :=
  (find?_stored gpiodEdgeArray w).symm

/-! ### The words that are recognised right -/

section Tables

variable {β : Type} {w : Str}

lemma lookup_overWord (t : KeywordTable UInt8 β overWord) :
    Recognises t.entries t.unknown (t.lookup w) w ↔ ¬ Begins (t.entries.map Prod.fst) w := by
  rw [recognises_iff t fun v => (overWord_iff v v).mpr List.prefix_rfl]
  simp only [Begins, List.mem_map, not_exists, not_and, overWord_iff]
  constructor
  · rintro h _ ⟨e, he, rfl⟩ hw hne
    exact hne (h e he hw).symm
  · intro h e he hw
    by_contra hne
    exact h e.1 ⟨e, he, rfl⟩ hw fun heq => hne heq.symm

lemma lookup_overKeyword (t : KeywordTable UInt8 β overKeyword) :
    Recognises t.entries t.unknown (t.lookup w) w ↔ ¬ Extends (t.entries.map Prod.fst) w := by
  rw [recognises_iff t fun v => (overKeyword_iff v v).mpr List.prefix_rfl]
  simp only [Extends, List.mem_map, not_exists, not_and, overKeyword_iff]
  constructor
  · rintro h _ ⟨e, he, rfl⟩ hw hne
    exact hne (h e he hw).symm
  · intro h e he hw
    by_contra hne
    exact h e.1 ⟨e, he, rfl⟩ hw fun heq => hne heq.symm

end Tables

lemma modTable_entries : modTable.entries = modKeywords.take 4 ++ [(bytes "ONESHOT", 5)] := by
  decide

lemma modKeywords_eq :
    modKeywords = modKeywords.take 4 ++ [(bytes "ONESHOT", hooktabModOneshot)] := by
  decide

lemma mem_modKeywords {e : Str × ℕ} (he : e.1 ≠ bytes "ONESHOT") :
    e ∈ modKeywords ↔ e ∈ modTable.entries := by
  have hlast : ∀ code : ℕ, e ≠ (bytes "ONESHOT", code) := by
    rintro code rfl
    exact he rfl
  rw [modTable_entries]
  nth_rewrite 1 [modKeywords_eq]
  simp only [List.mem_append, List.mem_singleton, hlast, or_false]

lemma recognises_congr {β : Type} {l l' : List (Str × β)} {unknown result : β} {w : Str}
    (h : ∀ e : Str × β, e.1 = w → (e ∈ l ↔ e ∈ l')) :
    Recognises l unknown result w ↔ Recognises l' unknown result w := by
  constructor
  · intro hr
    exact ⟨fun e he hew => hr.entry e ((h e hew).mpr he) hew,
      fun hno => hr.other fun e he hew => hno e ((h e hew).mp he) hew⟩
  · intro hr
    exact ⟨fun e he hew => hr.entry e ((h e hew).mp he) hew,
      fun hno => hr.other fun e he hew => hno e ((h e hew).mpr he) hew⟩

lemma mod_iff (w : Str) :
    Recognises modKeywords hooktabModMax (tabParseMod w) w ↔
      w ≠ bytes "ONESHOT" ∧ ¬ Begins gpiodHookModifies w := by
  have hnames : modTable.entries.map Prod.fst = gpiodHookModifies := by decide
  by_cases hw : w = bytes "ONESHOT"
  · subst hw
    refine ⟨fun h => ?_, fun h => absurd rfl h.1⟩
    have hcode := h.entry (bytes "ONESHOT", hooktabModOneshot) (by decide) rfl
    exact absurd hcode (by decide)
  · have htable := lookup_overWord (w := w) modTable
    rw [hnames, ← tabParseMod_eq] at htable
    rw [recognises_congr fun e hew => mem_modKeywords fun he => hw (hew.symm.trans he)]
    exact htable.trans (and_iff_right hw).symm

/-- **Where the four functions accept their keywords only.** For each it is the words that are no
mere beginning of one, or no mere extension; `tab_parse_mod` returns another code for ONESHOT. -/
theorem recognisedRight_iff (w : Str) :
    RecognisedRight w ↔
      w ≠ bytes "ONESHOT" ∧ ¬ Begins gpiodHookModifies w ∧
        ¬ Begins (gpiodSpecialArgsArray.map Prod.fst) w ∧
        ¬ Extends (gpiodFacilityArray.map Prod.fst) w ∧
        ¬ Extends (gpiodEdgeArray.map Prod.fst) w := by
  have hargs := lookup_overWord (w := w) argTable
  have hfacility := lookup_overKeyword (w := w) facilityTable
  have hedge := lookup_overKeyword (w := w) edgeTable
  rw [← tabParseArgs_eq] at hargs
  rw [← confParseFacility_eq] at hfacility
  rw [← confParseEdge_eq] at hedge
  constructor
  · intro h
    obtain ⟨hone, hmod⟩ := (mod_iff w).mp h.mod
    exact ⟨hone, hmod, hargs.mp h.args, hfacility.mp h.facility, hedge.mp h.edge⟩
  · rintro ⟨hone, hmod, ha, hf, he⟩
    exact ⟨(mod_iff w).mpr ⟨hone, hmod⟩, hargs.mpr ha, hfacility.mpr hf, hedge.mpr he⟩

/-- An empty word is taken for a modifier and an argument, `risingfoo` for an edge, and ONESHOT
gets a code that is not its own. -/
theorem empty_extended_oneshot :
    (tabParseMod [] = hooktabModRise ∧ ¬ RecognisedRight []) ∧
      tabParseArgs [] = .label ∧
      (confParseEdge (bytes "risingfoo") = some .rising ∧
        ¬ RecognisedRight (bytes "risingfoo")) ∧
      tabParseMod (bytes "ONESHOT") = 5 ∧ ¬ RecognisedRight (bytes "ONESHOT") := by
  refine ⟨⟨by decide, fun h => ?_⟩, by decide, ⟨by decide, fun h => ?_⟩, by decide, fun h => ?_⟩
  · exact absurd (h.mod.other (by decide)) (by decide)
  · exact absurd (h.edge.other (by decide)) (by decide)
  · exact absurd (h.mod.entry (bytes "ONESHOT", hooktabModOneshot) (by decide) rfl) (by decide)

end Gpiod.Recognisers
