import Gpiod.TabArgs
import Gpiod.TabRoute

/-!
Which bytes of the buffer the loading of a line inspects.

Run on the line and its NUL alone, a parser that looks no further than the NUL does not
fault; what it does there it does whatever bytes follow the NUL. The one cursor that can be
taken over the NUL is the one the modifier loop steps past the separator of its last word:
the text behind the label must be a modifier list that the line breaks off (`Unfinished`).
-/

namespace Gpiod.TabBounds

open Gpiod.Pin Gpiod.TabScan Gpiod.TabField Gpiod.TabArgs Gpiod.TabRoute

/-- A list of modifiers that reaches to the end of the line: its last word, which may be
empty, is recognised, and the NUL stands right behind it. -/
inductive Unfinished : Str → Prop
  /-- the last word -/
  | word {b p : Str} (hb : Blanks b) (hp : Solid p) (hc : 0x2c ∉ keep p)
      (hk : Known (keep p)) : Unfinished (b ++ p)
  /-- a word, blanks and a comma -/
  | blank {b p s x : Str} (hb : Blanks b) (hp : Solid p) (hne : p ≠ []) (hc : 0x2c ∉ keep p)
      (hk : Known (keep p)) (hs : Blanks s) (hsne : s ≠ []) (hx : Unfinished x) :
      Unfinished (b ++ (p ++ (s ++ 0x2c :: x)))
  /-- a word and a comma in one stretch, the comma seen by the eight-bit length -/
  | comma {b w q x : Str} (hb : Blanks b) (hp : Solid (w ++ 0x2c :: q)) (hw : 0x2c ∉ w)
      (hl : w.length < (w ++ 0x2c :: q).length % 256) (hx : ∀ r ∈ x.head?, Stops r)
      (hk : Known w) (h : Unfinished (q ++ x)) : Unfinished (b ++ (w ++ 0x2c :: q ++ x))
  /-- the same with a word that is not recognised: the next pass starts at the comma -/
  | skip {b w q x : Str} (hb : Blanks b) (hp : Solid (w ++ 0x2c :: q)) (hw : 0x2c ∉ w)
      (hl : w.length < (w ++ 0x2c :: q).length % 256) (hx : ∀ r ∈ x.head?, Stops r)
      (hk : ¬ Known w) (h : Unfinished (0x2c :: q ++ x)) :
      Unfinished (b ++ (w ++ 0x2c :: q ++ x))

lemma Unfinished.listEnds {x : Str} (hx : Unfinished x) (stale : Mem) :
    ∃ ws, ListEnds (x ++ 0 :: stale) ws stale := by
  induction hx with
  | @word b p hb hp hc hk =>
    rw [List.append_assoc]
    exact ⟨_, .last (s := []) hb hp (Or.inl rfl) (fun _ => by decide) hc hk (by simp [Blanks]) rfl
      (by decide) (by decide)⟩
  | @blank b p s x hb hp hne hc hk hs hsne hx ih =>
    obtain ⟨r, t, rfl⟩ := List.exists_cons_of_ne_nil hsne
    obtain ⟨ws, ih⟩ := ih
    simp only [List.append_assoc, List.cons_append]
    exact ⟨_, .blank hb hp hne hc hk hs ih⟩
  | @comma b w q x hb hp hw hl hx hk h ih =>
    obtain ⟨r, m, hm, hr⟩ := stop_behind hx stale
    obtain ⟨ws, ih⟩ := ih
    rw [List.append_assoc q, hm] at ih
    rw [List.append_assoc, List.append_assoc (w ++ 0x2c :: q), hm]
    exact ⟨_, .comma hb hp hr hw hl hk ih⟩
  | @skip b w q x hb hp hw hl hx hk h ih =>
    obtain ⟨r, m, hm, hr⟩ := stop_behind hx stale
    obtain ⟨ws, ih⟩ := ih
    rw [List.append_assoc (0x2c :: q), hm] at ih
    rw [List.append_assoc, List.append_assoc (w ++ 0x2c :: q), hm]
    exact ⟨_, .skip hb hp hr hw hl hk ih⟩

lemma afterToken_stops (x : Str) : ∀ r ∈ (afterToken x).head?, Stops r := by
  intro r hr
  cases ha : afterToken x with
  | nil => rw [ha] at hr; cases hr
  | cons c y => rw [ha] at hr; cases hr; exact (afterToken_head ha).1

lemma split_comma {x w q : Str} (hwq : firstToken x = w ++ 0x2c :: q) (stale : Mem) :
    ∃ r m, Stops r ∧ x ++ 0 :: stale = x.takeWhile isBlank ++ (w ++ 0x2c :: q ++ r :: m) ∧
      afterToken x ++ 0 :: stale = r :: m := by
  have hx := text_split x
  rw [hwq] at hx
  obtain ⟨r, m, hm, hr⟩ := stop_behind (afterToken_stops x) stale
  refine ⟨r, m, hr, ?_, hm⟩
  conv_lhs => rw [hx]
  rw [List.append_assoc, List.append_assoc _ (afterToken x), hm]

lemma split_token (x : Str) (stale : Mem) :
    ∃ r m, Stops r ∧ (firstToken x = [] → isBlank r = false) ∧
      x ++ 0 :: stale = x.takeWhile isBlank ++ (firstToken x ++ r :: m) ∧
      afterToken x ++ 0 :: stale = r :: m := by
  obtain ⟨r, m, hm, hr, hbr⟩ := text_split_nul x stale
  refine ⟨r, m, hr, hbr, ?_, hm⟩
  conv_lhs => rw [text_split x]
  rw [List.append_assoc, List.append_assoc, hm]

/-- A pass on a text cuts a word from it and leaves the cursor in front of the NUL, whatever stands
behind it; where the loop goes on, the text left is shorter and broken off only if this one is. -/
structure Passes (x w : Str) (coma : Bool) (y : Str) : Prop where
  run : ∀ f stale, modPass f (x ++ 0 :: stale) = .ok (f ||| wordFlags w, coma, y ++ 0 :: stale)
  more : coma = true → y.length < x.length ∧ (Unfinished y → Unfinished x) ∧
    ∀ stale ws z, ListEnds (y ++ 0 :: stale) ws z → ListEnds (x ++ 0 :: stale) (w :: ws) z
  done : coma = false → ∀ stale, ListEnds (x ++ 0 :: stale) [w] (y ++ 0 :: stale)

lemma passes_comma {x : Str} (hcomma : 0x2c ∈ keep (firstToken x)) :
    ∃ w y, Passes x w true y := by
  obtain ⟨w, q, hwq, hw, hl⟩ := keep_comma hcomma
  have hb := blanks_takeWhile x
  have hp := solid_firstToken x
  have hx := text_split x
  have hstop := afterToken_stops x
  have hsplit := split_comma hwq
  rw [hwq] at hp hx
  have hxlen := congrArg List.length hx
  simp only [List.length_append, List.length_cons] at hxlen
  by_cases hk : Known w
  · refine ⟨w, q ++ afterToken x, fun f stale => ?_, fun _ => ⟨?_, fun hu => ?_, ?_⟩, nofun⟩
    · obtain ⟨r, m, hr, hsx, hsy⟩ := hsplit stale
      rw [hsx, List.append_assoc q, hsy, wordFlags_known hk]
      exact modPass_known_comma (s := []) f (cutWord_comma hb hp hr hw hl) hk (by simp [Blanks]) rfl
    · rw [List.length_append]
      omega
    · rw [hx]
      exact .comma hb hp hw hl hstop hk hu
    · intro stale ws z hz
      obtain ⟨r, m, hr, hsx, hsy⟩ := hsplit stale
      rw [hsx]
      rw [List.append_assoc q, hsy] at hz
      exact .comma hb hp hr hw hl hk hz
  · have hwpos : 0 < w.length := List.length_pos_iff.mpr (by rintro rfl; exact hk known_nil)
    refine ⟨w, 0x2c :: q ++ afterToken x, fun f stale => ?_, fun _ => ⟨?_, fun hu => ?_, ?_⟩,
      nofun⟩
    · obtain ⟨r, m, hr, hsx, hsy⟩ := hsplit stale
      rw [hsx, List.append_assoc (0x2c :: q), hsy, wordFlags_unknown hk, Nat.or_zero]
      exact modPass_unknown f (cutWord_comma hb hp hr hw hl) hk
    · simp only [List.length_append, List.length_cons]
      omega
    · rw [hx]
      exact .skip hb hp hw hl hstop hk hu
    · intro stale ws z hz
      obtain ⟨r, m, hr, hsx, hsy⟩ := hsplit stale
      rw [hsx]
      rw [List.append_assoc (0x2c :: q), hsy] at hz
      exact .skip hb hp hr hw hl hk hz

lemma passes_blank {x s z : Str} (hcomma : 0x2c ∉ keep (firstToken x))
    (hk : Known (keep (firstToken x))) (hsz : afterToken x = s ++ 0x2c :: z) (hs : Blanks s) :
    Passes x (keep (firstToken x)) true z := by
  have hb := blanks_takeWhile x
  have hp := solid_firstToken x
  have hx := text_split x
  -- the stop byte is the first of the blanks in front of the comma
  obtain ⟨r, t, rfl⟩ : ∃ r t, s = r :: t := by
    refine List.exists_cons_of_ne_nil ?_
    rintro rfl
    exact ne_comma_of_stops (afterToken_head hsz).1 rfl
  have hne : firstToken x ≠ [] := fun he => by
    have hr := (afterToken_head hsz).2 he
    rw [hs r (by simp)] at hr
    cases hr
  have hsplit : ∀ stale, x ++ 0 :: stale = x.takeWhile isBlank ++
      (firstToken x ++ r :: (t ++ 0x2c :: (z ++ 0 :: stale))) := by
    intro stale
    conv_lhs => rw [hx, hsz]
    simp
  rw [hsz] at hx
  have hxlen := congrArg List.length hx
  simp only [List.length_append, List.length_cons] at hxlen
  refine ⟨fun f stale => ?_, fun _ => ⟨by omega, fun hu => ?_, fun stale ws y hy => ?_⟩, nofun⟩
  · have hr : Stops r := (afterToken_head hsz).1
    rw [hsplit, wordFlags_known hk]
    exact modPass_known_comma (s := r :: t) f
      (cutWord_piece (m := t ++ 0x2c :: (z ++ 0 :: stale)) hb hp hr (fun he => absurd he hne)
        hcomma)
      hk hs rfl
  · rw [hx]
    exact .blank hb hp hne hcomma hk hs (List.cons_ne_nil r t) hu
  · rw [hsplit]
    exact .blank hb hp hne hcomma hk hs hy

/-- **One pass on a text** that is not broken off. -/
lemma passes_of_text (x : Str) : Unfinished x ∨ ∃ w coma y, Passes x w coma y := by
  by_cases hcomma : 0x2c ∈ keep (firstToken x)
  · obtain ⟨w, y, h⟩ := passes_comma hcomma
    exact Or.inr ⟨w, true, y, h⟩
  have hb := blanks_takeWhile x
  have hp := solid_firstToken x
  have hsplit := split_token x
  by_cases hk : Known (keep (firstToken x))
  · rcases ha : afterToken x with _ | ⟨r, y⟩
    · left
      rw [text_split x, ha, List.append_nil]
      exact .word hb hp hcomma hk
    rcases comma_or_not (r :: y) with ⟨s, z, hsz, hs⟩ | hend
    · exact Or.inr ⟨_, true, z, passes_blank hcomma hk (ha.trans hsz) hs⟩
    · -- no comma: the step past the separator takes the cursor over the stop byte
      rw [ha] at hsplit
      refine Or.inr ⟨keep (firstToken x), false, y, fun f stale => ?_, nofun, fun _ stale => ?_⟩
      · obtain ⟨c, m, hc, hne⟩ := hend stale
        obtain ⟨r', m', hr, hbr, hsx, hsy⟩ := hsplit stale
        rw [hsy] at hc
        obtain rfl : y ++ 0 :: stale = m' := (List.cons.inj hsy).2
        rw [hsx, wordFlags_known hk]
        exact modPass_known_end f (cutWord_piece hb hp hr hbr hcomma) hk hc hne
      · obtain ⟨c, m, hc, hne⟩ := hend stale
        obtain ⟨r', m', hr, hbr, hsx, hsy⟩ := hsplit stale
        rw [hsy] at hc
        obtain ⟨s, c', x', hm, hs, hcx, hcb⟩ := eatSpace_split hc
        cases hcx
        obtain rfl : y ++ 0 :: stale = m' := (List.cons.inj hsy).2
        rw [hsx]
        exact .last hb hp hr hbr hcomma hk hs hm hcb hne
  · -- an unknown word: the loop is left without the step past the separator
    refine Or.inr ⟨keep (firstToken x), false, afterToken x, fun f stale => ?_, nofun,
      fun _ stale => ?_⟩
    · obtain ⟨r, m, hr, hbr, hsx, hsy⟩ := hsplit stale
      rw [hsx, hsy, wordFlags_unknown hk, Nat.or_zero]
      exact modPass_unknown f (cutWord_piece hb hp hr hbr hcomma) hk
    · obtain ⟨r, m, hr, hbr, hsx, hsy⟩ := hsplit stale
      rw [hsx, hsy]
      exact .unknown hb hp hr hbr hcomma hk

/-- **The list at the head of any other text** has the same words and ends in front of the NUL,
whatever stands behind it. -/
lemma listEnds_finished (x : Str) : Unfinished x ∨
    ∃ ws y, ∀ stale, ListEnds (x ++ 0 :: stale) ws (y ++ 0 :: stale) := by
  induction hlen : x.length using Nat.strong_induction_on generalizing x with
  | _ len ih =>
    subst hlen
    rcases passes_of_text x with hu | ⟨w, coma, y, hpass⟩
    · exact Or.inl hu
    cases coma with
    | false => exact Or.inr ⟨[w], y, hpass.done rfl⟩
    | true =>
      obtain ⟨hlt, hback, hends⟩ := hpass.more rfl
      rcases ih y.length hlt y rfl with hu | ⟨ws, z, hz⟩
      · exact Or.inl (hback hu)
      · exact Or.inr ⟨w :: ws, z, fun stale => hends stale ws _ (hz stale)⟩

/-! ### Path and arguments -/

lemma afterToken_length (x : Str) :
    (afterToken x).length + (firstToken x).length ≤ x.length := by
  have := congrArg List.length (text_split x)
  simp only [List.length_append] at this
  omega

/-- The tokens of a text are the same whatever stands behind its NUL. -/
lemma tokens_text (x : Str) : ∃ ts, ∀ stale, Tokens (x ++ 0 :: stale) ts := by
  induction hlen : x.length using Nat.strong_induction_on generalizing x with
  | _ len ih =>
    subst hlen
    have hlen := afterToken_length x
    have hsplit : ∀ stale, x ++ 0 :: stale =
        x.takeWhile isBlank ++ (firstToken x ++ (afterToken x ++ 0 :: stale)) := by
      intro stale
      conv_lhs => rw [text_split x]
      rw [List.append_assoc, List.append_assoc]
    by_cases hp : firstToken x = []
    · refine ⟨[], fun stale => ?_⟩
      obtain ⟨r, m, hm, hr, hbr⟩ := text_split_nul x stale
      rw [hsplit, hm, hp]
      exact .done (blanks_takeWhile x) hr (hbr hp)
    · have hpos : 0 < (firstToken x).length := List.length_pos_iff.mpr hp
      obtain ⟨ts, hts⟩ := ih (afterToken x).length (by omega) (afterToken x) rfl
      refine ⟨firstToken x :: ts, fun stale => ?_⟩
      obtain ⟨r, m, hm, hr, -⟩ := text_split_nul x stale
      have htail := hts stale
      rw [hm] at htail
      rw [hsplit, hm]
      exact .token (blanks_takeWhile x) (solid_firstToken x) hp hr htail

/-- **Any other text** is taken apart the same way whatever stands behind its NUL. -/
lemma reads_finished (x : Str) :
    Unfinished x ∨ ∃ ws ts, ∀ stale, Reads (x ++ 0 :: stale) ws ts := by
  rcases listEnds_finished x with hu | ⟨ws, y, hends⟩
  · exact Or.inl hu
  · obtain ⟨ts, hts⟩ := tokens_text y
    exact Or.inr ⟨ws, ts, fun stale => ⟨_, hends stale, hts stale⟩⟩

/-- A text that is no broken-off list makes the same hook whatever stands behind its NUL. -/
lemma tabHook_finished (x : Str) :
    Unfinished x ∨ ∃ hook, ∀ stale, tabHook (x ++ 0 :: stale) = .ok hook := by
  rcases reads_finished x with hu | ⟨ws, ts, hreads⟩
  · exact Or.inl hu
  · exact Or.inr ⟨_, fun stale => (hreads stale).tabHook⟩

lemma tabHook_unfinished {x : Str} (hx : Unfinished x) :
    tabHook (x ++ [0]) = .error .read := by
  obtain ⟨ws, hends⟩ := hx.listEnds []
  simp only [tabHook, hends.cuts.run ((x ++ [0]).length + 1) 0 (Nat.lt_succ_self _), bind,
    Except.bind, eatSpace]

/-! ### The line -/

/-- The pins after a line, given the pin it was found and the hook made of it. -/
def attach (gp_list : List GpioPin) : Option (ℕ × GpiodHook) → List GpioPin
  | none => gp_list
  | some (k, hook) => gp_list.modify k (·.addHook hook)

/-- A pin whose label begins with the copied first token. -/
def LabelFound (gp_list : List GpioPin) (line : Str) : Prop :=
  ∃ pin ∈ gp_list, keep (firstToken line) <+: pin.label

lemma labelFound_iff (gp_list : List GpioPin) (line : Str) :
    LabelFound gp_list line ↔ findPinByLabel gp_list (keep (firstToken line)) ≠ none := by
  rw [findPinByLabel_eq, Ne, List.findIdx?_eq_none_iff]
  simp [LabelFound, List.isPrefixOf_iff_prefix]

lemma findPinByLabel_congr {gp_list gp_list' : List GpioPin}
    (h : gp_list'.map (·.label) = gp_list.map (·.label)) (label : Str) :
    findPinByLabel gp_list' label = findPinByLabel gp_list label := by
  have key : ∀ l : List GpioPin, findPinByLabel l label =
      (l.map (·.label)).findIdx? fun v => label.isPrefixOf v := by
    intro l
    rw [findPinByLabel_eq, List.findIdx?_map]
    rfl
  rw [key, key, h]

/-- Loading a line on a list with these labels: the pin found is the same, and the hook is made
of the text behind the label. -/
lemma loadLine_congr {gp_list gp_list' : List GpioPin}
    (h : gp_list'.map (·.label) = gp_list.map (·.label)) (line : Str) (stale : Mem) :
    loadLine gp_list' (line ++ 0 :: stale) =
      match findPinByLabel gp_list (keep (firstToken line)) with
      | none => .ok gp_list'
      | some k => (tabHook (afterToken line ++ 0 :: stale)).bind
          fun hook => .ok (gp_list'.modify k (·.addHook hook)) := by
  rw [← findPinByLabel_congr h]
  cases hf : findPinByLabel gp_list' (keep (firstToken line)) <;>
    simp only [loadLine, tabLabel_eq, hf, bind, Except.bind, pure, Except.pure]

/-! ### Files that end with a line feed -/

lemma Unfinished.no_newline {x : Str} (h : Unfinished x) : (0x0a : UInt8) ∉ x := by
  have hb : ∀ {b : Str}, Blanks b → (0x0a : UInt8) ∉ b := fun hb hc =>
    absurd (hb _ hc) (by decide)
  have hp : ∀ {p : Str}, Solid p → (0x0a : UInt8) ∉ p := fun hp hc =>
    absurd (hp _ hc).2 (by decide)
  induction h with
  | word hb' hp' => simp [hb hb', hp hp']
  | blank hb' hp' _ _ _ hs _ _ ih => simp [hb hb', hp hp', hb hs, ih]
  | comma hb' hp' _ _ _ _ _ ih =>
    have := hp hp'
    simp only [List.mem_append, List.mem_cons, not_or] at this ih ⊢
    exact ⟨hb hb', ⟨this.1, by decide, this.2.2⟩, ih.2⟩
  | skip hb' hp' _ _ _ _ _ ih =>
    have := hp hp'
    simp only [List.mem_append, List.mem_cons, not_or] at this ih ⊢
    exact ⟨hb hb', ⟨this.1, by decide, this.2.2⟩, ih.2⟩

lemma afterToken_newline {line : Str} (h : (0x0a : UInt8) ∈ line) :
    (0x0a : UInt8) ∈ afterToken line := by
  rw [text_split line, List.mem_append, List.mem_append] at h
  rcases h with hb | hp | ha
  · exact absurd (blanks_takeWhile line _ hb) (by decide)
  · exact absurd (solid_firstToken line _ hp).2 (by decide)
  · exact ha

/-- A line with its line feed adds the same hook to the same pin, whatever hooks the pins have and
whatever the buffer holds behind it. -/
lemma loadLine_newline (gp_list : List GpioPin) {line : Str} (h : (0x0a : UInt8) ∈ line) :
    ∃ made, ∀ (l : List GpioPin) (stale : Mem), l.map (·.label) = gp_list.map (·.label) →
      loadLine l (line ++ 0 :: stale) = .ok (attach l made) := by
  obtain ⟨hook, hhook⟩ := (tabHook_finished (afterToken line)).resolve_left fun hu =>
    hu.no_newline (afterToken_newline h)
  cases hf : findPinByLabel gp_list (keep (firstToken line)) with
  | none => exact ⟨none, fun l stale hl => by rw [loadLine_congr hl, hf]; rfl⟩
  | some k => exact ⟨some (k, hook), fun l stale hl => by rw [loadLine_congr hl, hf, hhook]; rfl⟩

lemma splitLines_newline {text : Str} (h : text.getLast? = some 0x0a) :
    ∀ line ∈ splitLines text, (0x0a : UInt8) ∈ line := by
  induction text with
  | nil => cases h
  | cons c s ih =>
    intro line hline
    rcases s with _ | ⟨d, s⟩
    · obtain rfl : c = 0x0a := by simpa using h
      simp [splitLines] at hline
      simp [hline]
    · have ih' := ih (by simpa [List.getLast?_cons_cons] using h)
      rw [splitLines] at hline
      split at hline
      · next hc =>
        rcases List.mem_cons.mp hline with rfl | hline
        · simp [hc]
        · exact ih' line hline
      · cases hs : splitLines (d :: s) with
        | nil =>
          rw [splitLines] at hs
          split at hs
          · cases hs
          · split at hs <;> cases hs
        | cons l ls =>
          rw [hs] at hline ih'
          rcases List.mem_cons.mp hline with rfl | hline
          · exact List.mem_cons_of_mem _ (ih' l (by simp))
          · exact ih' line (by simp [hline])

end Gpiod.TabBounds
