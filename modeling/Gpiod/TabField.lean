import Mathlib.Data.List.TakeWhile
import Mathlib.Tactic.Common
import Gpiod.TabScan

/-!
What one pass of the modifier loop does, on the text in front of its cursor.

The text is taken apart the way the cursors do: blanks, then a stretch free of blanks, then
the byte that stops it. Of a stretch longer than 255 bytes the eight-bit length keeps a part
only (`keep`), and a comma behind that part is not seen.
-/

namespace Gpiod.TabField

open Gpiod.Pin Gpiod.TabScan

/-- Spaces and tabs only. -/
def Blanks (b : Str) : Prop := ∀ c ∈ b, isBlank c = true

/-- A stretch that `next_space` runs over: no NUL, no blank, no line end. -/
def Solid (w : Str) : Prop := ∀ c ∈ w, c ≠ 0 ∧ isSpace c = false

/-- A byte that `next_space` stops at. -/
def Stops (r : UInt8) : Prop := r = 0 ∨ isSpace r = true

instance (b : Str) : Decidable (Blanks b) := List.decidableBAll _ b
instance (w : Str) : Decidable (Solid w) := List.decidableBAll _ w
instance (r : UInt8) : Decidable (Stops r) := inferInstanceAs (Decidable (_ ∨ _))

/-- The part of a stretch that its length modulo 256 keeps. -/
def keep (p : Str) : Str := p.take (p.length % 256)

/-- A word that `tab_parse_mod` returns an enumerator for. -/
def Known (w : Str) : Prop := tabParseMod w ≠ hooktabModMax

instance (w : Str) : Decidable (Known w) := inferInstanceAs (Decidable (_ ≠ _))

lemma keep_of_lt {p : Str} (h : p.length < 256) : keep p = p := by
  unfold keep; rw [Nat.mod_eq_of_lt h, List.take_length]

lemma Solid.append {v w : Str} : Solid (v ++ w) ↔ Solid v ∧ Solid w := by
  simp only [Solid, List.mem_append, or_imp, forall_and]
  tauto

lemma not_blank_of_not_space {c : UInt8} (h : isSpace c = false) : isBlank c = false := by
  simp only [isSpace, isBlank, Bool.or_eq_false_iff] at h ⊢
  exact h.1.1

lemma space_of_blank {c : UInt8} (h : isBlank c = true) : isSpace c = true := by
  by_contra hc
  rw [not_blank_of_not_space (by simpa using hc)] at h
  exact Bool.false_ne_true h

lemma ne_zero_of_blank {c : UInt8} (h : isBlank c = true) : c ≠ 0 := by
  rintro rfl; revert h; decide

/-! ### The cursor functions -/

@[simp] lemma eatSpace_blanks {b : Str} (hb : Blanks b) (m : Mem) :
    eatSpace (b ++ m) = eatSpace m := by
  induction b with
  | nil => rfl
  | cons c b ih =>
    have hc : isBlank c = true := hb c (by simp)
    have h0 := ne_zero_of_blank hc
    simp only [List.cons_append, eatSpace, h0, hc, ↓reduceIte]
    exact ih fun d hd => hb d (by simp [hd])

lemma eatSpace_stop {c : UInt8} (hc : isBlank c = false) (m : Mem) :
    eatSpace (c :: m) = .ok (c :: m) := by
  simp [eatSpace, hc]

lemma eatSpace_found {b : Str} {c : UInt8} (hb : Blanks b) (hc : isBlank c = false) (m : Mem) :
    eatSpace (b ++ c :: m) = .ok (c :: m) := by
  rw [eatSpace_blanks hb, eatSpace_stop hc]

@[simp] lemma nextSpace_solid {w : Str} (hw : Solid w) (m : Mem) :
    nextSpace (w ++ m) = nextSpace m := by
  induction w with
  | nil => rfl
  | cons c w ih =>
    obtain ⟨h0, hc⟩ := hw c (by simp)
    simp only [List.cons_append, nextSpace, h0, hc, ↓reduceIte, Bool.false_eq_true]
    exact ih fun d hd => hw d (by simp [hd])

lemma nextSpace_stop {r : UInt8} (hr : Stops r) (m : Mem) :
    nextSpace (r :: m) = .ok (r :: m) := by
  rcases hr with rfl | hr <;> simp [nextSpace, *]

lemma eatSpace_piece {b p : Str} {r : UInt8} {m : Mem} (hb : Blanks b) (hp : Solid p)
    (hr : p = [] → isBlank r = false) :
    eatSpace (b ++ (p ++ r :: m)) = .ok (p ++ r :: m) := by
  rw [eatSpace_blanks hb]
  cases p with
  | nil => exact eatSpace_stop (hr rfl) m
  | cons c p => exact eatSpace_stop (not_blank_of_not_space (hp c (by simp)).2) _

lemma nextSpace_piece {p : Str} {r : UInt8} {m : Mem} (hp : Solid p) (hr : Stops r) :
    nextSpace (p ++ r :: m) = .ok (r :: m) := by
  rw [nextSpace_solid hp, nextSpace_stop hr]

lemma cursorDist_append (p : Str) (m : Mem) : cursorDist (p ++ m) m = p.length % 256 := by
  simp [cursorDist]

lemma strncpy_append {p : Str} (hp : Solid p) (m : Mem) {n : ℕ} (hn : n ≤ p.length) :
    strncpy (p ++ m) n = p.take n := by
  unfold strncpy
  rw [List.take_append_of_le_length hn, List.takeWhile_eq_self_iff]
  intro c hc
  simpa using (hp c (List.mem_of_mem_take hc)).1

lemma memchr_found {c : UInt8} {w : Str} (hw : c ∉ w) (m : Mem) {n : ℕ} (hn : w.length < n) :
    memchr c n (w ++ c :: m) = some (c :: m) := by
  induction w generalizing n with
  | nil =>
    obtain ⟨n, rfl⟩ : ∃ k, n = k + 1 := ⟨n - 1, by simp at hn; omega⟩
    simp [memchr]
  | cons a w ih =>
    obtain ⟨n, rfl⟩ : ∃ k, n = k + 1 := ⟨n - 1, by simp at hn; omega⟩
    simp only [List.mem_cons, not_or, List.length_cons] at hw hn
    simp only [List.cons_append, memchr, Ne.symm hw.1, ↓reduceIte]
    exact ih hw.2 (by omega)

lemma memchr_split {c : UInt8} {n : ℕ} {m t : Mem} (h : memchr c n m = some t) :
    ∃ w, m = w ++ t ∧ w.length < n := by
  induction n generalizing m with
  | zero => cases h
  | succ n ih =>
    cases m with
    | nil => cases h
    | cons a m =>
      rw [memchr] at h
      split at h
      · cases h
        exact ⟨[], rfl, Nat.succ_pos n⟩
      · obtain ⟨w, rfl, hw⟩ := ih h
        exact ⟨a :: w, rfl, Nat.succ_lt_succ hw⟩

lemma memchr_none {c : UInt8} {n : ℕ} {m : Mem} (h : c ∉ m.take n) : memchr c n m = none := by
  induction m generalizing n with
  | nil => cases n <;> rfl
  | cons a m ih =>
    cases n with
    | zero => rfl
    | succ n =>
      simp only [List.take_succ_cons, List.mem_cons, not_or] at h
      simp only [memchr, Ne.symm h.1, ↓reduceIte]
      exact ih h.2

/-! ### Taking a text apart -/

def isSolid (c : UInt8) : Bool := c != 0 && !isSpace c

/-- The first blank-delimited token of a text, empty where it has none. -/
def firstToken (s : Str) : Str := (s.dropWhile isBlank).takeWhile isSolid

/-- The text behind its first token. -/
def afterToken (s : Str) : Str := (s.dropWhile isBlank).dropWhile isSolid

lemma blanks_takeWhile (s : Str) : Blanks (s.takeWhile isBlank) :=
  fun _ hc => List.mem_takeWhile_imp hc

lemma solid_firstToken (s : Str) : Solid (firstToken s) := by
  intro c hc
  have := List.mem_takeWhile_imp hc
  simpa [isSolid] using this

lemma text_split (s : Str) : s = s.takeWhile isBlank ++ (firstToken s ++ afterToken s) := by
  unfold firstToken afterToken
  rw [List.takeWhile_append_dropWhile, List.takeWhile_append_dropWhile]

lemma stops_of_not_solid {c : UInt8} (h : isSolid c = false) : Stops c := by
  by_cases h0 : c = 0
  · exact Or.inl h0
  · exact Or.inr (by simpa [isSolid, h0] using h)

lemma afterToken_head {s x : Str} {r : UInt8} (h : afterToken s = r :: x) :
    Stops r ∧ (firstToken s = [] → isBlank r = false) := by
  have hd : (s.dropWhile isBlank).dropWhile isSolid = r :: x := h
  have hr : isSolid r = false := by
    have := List.head_dropWhile_not isSolid (l := s.dropWhile isBlank) (by rw [hd]; simp)
    simpa only [hd, List.head_cons] using this
  refine ⟨stops_of_not_solid hr, fun he => ?_⟩
  have hs : s.dropWhile isBlank = r :: x := by
    have := List.takeWhile_append_dropWhile (p := isSolid) (l := s.dropWhile isBlank)
    rw [hd] at this
    unfold firstToken at he
    rw [← this, he, List.nil_append]
  have := List.head_dropWhile_not isBlank (l := s) (by rw [hs]; simp)
  simpa only [hs, List.head_cons] using this

lemma text_split_nul (s : Str) (stale : Mem) : ∃ (r : UInt8) (m : Mem),
    afterToken s ++ 0 :: stale = r :: m ∧ Stops r ∧
      (firstToken s = [] → isBlank r = false) := by
  rcases h : afterToken s with _ | ⟨r, x⟩
  · exact ⟨0, stale, rfl, Or.inl rfl, fun _ => by decide⟩
  · exact ⟨r, x ++ 0 :: stale, rfl, afterToken_head h⟩

lemma firstToken_piece {b p : Str} {r : UInt8} (hb : Blanks b) (hp : Solid p) (hne : p ≠ [])
    (hr : Stops r) (x : Str) :
    firstToken (b ++ (p ++ r :: x)) = p ∧ afterToken (b ++ (p ++ r :: x)) = r :: x := by
  obtain ⟨c, q, rfl⟩ := List.exists_cons_of_ne_nil hne
  have hc : isBlank c = false := not_blank_of_not_space (hp c List.mem_cons_self).2
  have hdrop : (b ++ (c :: q ++ r :: x)).dropWhile isBlank = c :: q ++ r :: x := by
    rw [List.dropWhile_append_of_pos hb]
    exact List.dropWhile_cons_of_neg (by simp [hc])
  have hsolid : ∀ d ∈ c :: q, isSolid d = true := by
    intro d hd
    obtain ⟨h0, hs⟩ := hp d hd
    simp [isSolid, h0, hs]
  have hstop : isSolid r = false := by
    rcases hr with rfl | hr <;> simp [isSolid, *]
  refine ⟨?_, ?_⟩
  · rw [firstToken, hdrop, List.takeWhile_append_of_pos hsolid,
      List.takeWhile_cons_of_neg (by simp [hstop]), List.append_nil]
  · rw [afterToken, hdrop, List.dropWhile_append_of_pos hsolid,
      List.dropWhile_cons_of_neg (by simp [hstop])]

lemma tabLabel_piece {b p : Str} {r : UInt8} {m : Mem} (hb : Blanks b) (hp : Solid p)
    (hr : Stops r) (hbr : p = [] → isBlank r = false) :
    tabLabel (b ++ (p ++ r :: m)) = .ok (keep p, r :: m) := by
  unfold tabLabel
  rw [eatSpace_piece hb hp hbr]
  simp only [bind, Except.bind, nextSpace_piece hp hr, cursorDist_append,
    strncpy_append hp _ (Nat.mod_le _ _)]
  rfl

lemma tabLabel_field {b p sep : Str} (hb : Blanks b) (hp : Solid p) (hne : p ≠ [])
    (hs : Blanks sep) (hsne : sep ≠ []) (m : Mem) :
    tabLabel (b ++ (p ++ (sep ++ m))) = .ok (keep p, sep ++ m) := by
  obtain ⟨r, t, rfl⟩ := List.exists_cons_of_ne_nil hsne
  have hr : Stops r := Or.inr (space_of_blank (hs r List.mem_cons_self))
  exact tabLabel_piece hb hp hr fun h => absurd h hne

lemma tabLabel_eq (line : Str) (stale : Mem) :
    tabLabel (line ++ 0 :: stale) =
      .ok (keep (firstToken line), afterToken line ++ 0 :: stale) := by
  obtain ⟨r, m, hm, hr, hbr⟩ := text_split_nul line stale
  have he : line ++ 0 :: stale =
      line.takeWhile isBlank ++ (firstToken line ++ r :: m) := by
    conv_lhs => rw [text_split line]
    rw [List.append_assoc, List.append_assoc, hm]
  rw [he, hm]
  exact tabLabel_piece (blanks_takeWhile line) (solid_firstToken line) hr hbr

lemma stop_behind {x : Str} (hx : ∀ r ∈ x.head?, Stops r) (stale : Mem) :
    ∃ (r : UInt8) (m : Mem), x ++ 0 :: stale = r :: m ∧ Stops r := by
  cases x with
  | nil => exact ⟨0, stale, rfl, Or.inl rfl⟩
  | cons r y => exact ⟨r, y ++ 0 :: stale, rfl, hx r rfl⟩

lemma ne_comma_of_stops {r : UInt8} (h : Stops r) : r ≠ 0x2c := by
  rintro rfl; revert h; decide

/-- What `eat_space` finds behind a word: a comma, or something else. -/
lemma comma_or_not (x : Str) : (∃ s z, x = s ++ 0x2c :: z ∧ Blanks s) ∨
    ∀ stale, ∃ c m, eatSpace (x ++ 0 :: stale) = .ok (c :: m) ∧ c ≠ 0x2c := by
  have hs := blanks_takeWhile x
  have hx := List.takeWhile_append_dropWhile (p := isBlank) (l := x)
  cases hd : x.dropWhile isBlank with
  | nil =>
    refine Or.inr fun stale => ⟨0, stale, ?_, by decide⟩
    rw [hd, List.append_nil] at hx
    rw [← hx]
    exact eatSpace_found hs (by decide) stale
  | cons c z =>
    have hc : isBlank c = false := by
      have := List.head_dropWhile_not isBlank (l := x) (by rw [hd]; simp)
      simpa only [hd, List.head_cons] using this
    rw [hd] at hx
    by_cases h : c = 0x2c
    · subst h
      exact Or.inl ⟨_, z, hx.symm, hs⟩
    · refine Or.inr fun stale => ⟨c, z ++ 0 :: stale, ?_, h⟩
      rw [← hx, List.append_assoc]
      exact eatSpace_found hs hc _

/-! ### One pass -/

lemma cutWord_comma {b w q : Str} {r : UInt8} {m : Mem} (hb : Blanks b)
    (hp : Solid (w ++ 0x2c :: q)) (hr : Stops r) (hw : 0x2c ∉ w)
    (hl : w.length < (w ++ 0x2c :: q).length % 256) :
    cutWord (b ++ (w ++ 0x2c :: q ++ r :: m)) = .ok (w, true, 0x2c :: q ++ r :: m) := by
  have hlt : w.length < 256 := Nat.lt_trans hl (Nat.mod_lt _ (by decide))
  have hfound : memchr 0x2c ((w ++ 0x2c :: q).length % 256) (w ++ 0x2c :: q ++ r :: m) =
      some (0x2c :: q ++ r :: m) := by
    rw [List.append_assoc]
    exact memchr_found hw _ hl
  have hword : strncpy (w ++ 0x2c :: q ++ r :: m) (cursorDist (w ++ 0x2c :: q ++ r :: m)
      (0x2c :: q ++ r :: m)) = w := by
    rw [List.append_assoc, cursorDist_append, Nat.mod_eq_of_lt hlt,
      strncpy_append (Solid.append.mp hp).1 _ (Nat.le_refl _), List.take_length]
  unfold cutWord
  rw [eatSpace_piece hb hp (by simp)]
  simp only [bind, Except.bind, nextSpace_piece hp hr, cursorDist_append, hfound, Option.getD_some,
    hword]
  rfl

/-- The word is what the eight-bit length keeps of the stretch: no comma is seen in it. -/
lemma cutWord_piece {b p : Str} {r : UInt8} {m : Mem} (hb : Blanks b) (hp : Solid p)
    (hr : Stops r) (hbr : p = [] → isBlank r = false) (hc : 0x2c ∉ keep p) :
    cutWord (b ++ (p ++ r :: m)) = .ok (keep p, false, r :: m) := by
  have hle : p.length % 256 ≤ p.length := Nat.mod_le _ _
  have hnone : memchr 0x2c (p.length % 256) (p ++ r :: m) = none := by
    apply memchr_none
    rwa [List.take_append_of_le_length hle]
  unfold cutWord
  rw [eatSpace_piece hb hp hbr]
  simp only [bind, Except.bind, nextSpace_piece hp hr, cursorDist_append, hnone, Option.getD_none,
    strncpy_append hp _ hle]
  rfl

lemma modPass_unknown {m t : Mem} {w : Str} {coma : Bool} (f : ℕ)
    (h : cutWord m = .ok (w, coma, t)) (hw : ¬ Known w) : modPass f m = .ok (f, coma, t) := by
  simp only [Known, not_not] at hw
  simp [modPass, h, hw, bind, Except.bind, pure, Except.pure]

/-- A recognised word followed by a comma: the pass goes on behind the comma. -/
lemma modPass_known_comma {m t x : Mem} {w s : Str} {coma : Bool} (f : ℕ)
    (h : cutWord m = .ok (w, coma, t)) (hw : Known w) (hs : Blanks s)
    (ht : t = s ++ 0x2c :: x) : modPass f m = .ok (f ||| tabParseMod w, true, x) := by
  subst ht
  have he : eatSpace (s ++ 0x2c :: x) = .ok (0x2c :: x) := eatSpace_found hs (by decide) x
  simp only [Known] at hw
  simp [modPass, h, hw, bind, Except.bind, pure, Except.pure, he, peek]

/-- A recognised word followed by anything else: the loop ends one byte further. -/
lemma modPass_known_end {m t x : Mem} {w : Str} {coma : Bool} {c : UInt8} (f : ℕ)
    (h : cutWord m = .ok (w, coma, t)) (hw : Known w) (ht : eatSpace t = .ok (c :: x))
    (hc : c ≠ 0x2c) : modPass f m = .ok (f ||| tabParseMod w, coma, t.tail) := by
  simp only [Known] at hw
  simp [modPass, h, hw, bind, Except.bind, pure, Except.pure, ht, peek, hc]

lemma keep_comma {p : Str} (h : 0x2c ∈ keep p) :
    ∃ w q, p = w ++ 0x2c :: q ∧ 0x2c ∉ w ∧ w.length < (w ++ 0x2c :: q).length % 256 := by
  obtain ⟨w, q, hwq, hw⟩ := List.eq_append_cons_of_mem h
  have hp : p = w ++ 0x2c :: (q ++ p.drop (p.length % 256)) := by
    conv_lhs => rw [← List.take_append_drop (p.length % 256) p, ← keep, hwq]
    simp
  refine ⟨w, _, hp, hw, ?_⟩
  rw [← hp]
  have hlen := congrArg List.length hwq
  simp only [keep, List.length_take, List.length_append, List.length_cons] at hlen
  omega

lemma known_nil : Known [] := by decide

/-! ### The loop -/

lemma modLoop_done {m t : Mem} {f g n : ℕ} (h : modPass f m = .ok (g, false, t)) :
    modLoop (n + 1) f m = .ok (g, t) := by
  simp [modLoop, h, bind, Except.bind, pure, Except.pure]

lemma modLoop_more {m t : Mem} {f g n : ℕ} (h : modPass f m = .ok (g, true, t)) :
    modLoop (n + 1) f m = modLoop n g t := by
  simp [modLoop, h, bind, Except.bind]

end Gpiod.TabField
