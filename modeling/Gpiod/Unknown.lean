import Gpiod.Layout
import Gpiod.TabVisible

/-!
Words of a list of modifiers that are no names of modifiers.

Such a word is to add nothing. The loop recognises the beginnings of names as well, reads an
empty word, which it takes for EDGE_RISING, in front of a comma that an unrecognised word has
left it at, and ends behind an unrecognised word that blanks stand behind. Of a long stretch it
sees a beginning only, and the token buffer has no room for a long word.
-/

namespace Gpiod.Unknown

open Gpiod.Pin Gpiod.TabScan Gpiod.TabField Gpiod.TabArgs Gpiod.TabWords Gpiod.TabVisible
open Gpiod.Mask Gpiod.Layout
open Gpiod.TabBuffer (loadLine_eq)

/-- The names among the words of a line. -/
def names (l : Line) : List Str := l.words.filter fun w => IsName w

/-- The second line is the first with the words deleted that are no names, in any layout. -/
structure Deleted (l l' : Line) : Prop where
  label : l'.label.text = l.label.text
  words : l'.words = names l
  tokens : l'.tokens = l.tokens

/-- The hooks built of two lines for a known label have the same flags, path and arguments. -/
def SameHook (l l' : Line) : Prop :=
  ∀ gp_list k, findPinByLabel gp_list (keep l.label.text) = some k → ∀ stale stale',
    ∃ hook hook', TabBuffer.loadLine gp_list (l.text ++ 0 :: stale) =
        .ok (gp_list.modify k (·.addHook hook)) ∧
      TabBuffer.loadLine gp_list (l'.text ++ 0 :: stale') =
        .ok (gp_list.modify k (·.addHook hook')) ∧
      hook.flags = hook'.flags ∧ hook.path = hook'.path ∧ hook.arg_list = hook'.arg_list

/-- The words that are no names contribute nothing: the hook is that of the line without them, in
any layout whose stretches the eight-bit length does not cut. -/
def AddNothing (l : Line) : Prop :=
  ∀ l', Deleted l l' → Short l'.first l'.further → SameHook l l'

def nameFlags (l : Line) : ℕ := join tabParseMod 0 (names l)

/-- The flags of a word seen: an unrecognised one brings those of EDGE_RISING where its comma is
seen. -/
def seenFlags (u : Cut) : ℕ :=
  if Known u.1 then tabParseMod u.1 else if u.2 then hooktabModRise else 0

/-- The label, the tokens and the words that are seen fit in the token buffer, the loop passes
every stretch of the list, and the words seen have the flags of the names. -/
structure Harmless (l : Line) : Prop where
  fits : l.Fits
  words : ∀ u ∈ seenAll l.first l.further, u.1.length < gpiodTabMaxArgumentLength
  passed : ∀ q ∈ heads l.first l.further, Passed q.1 q.2
  flags : join seenFlags 0 (seenAll l.first l.further) = nameFlags l

/-- The same where all words are seen: no unrecognised word has blanks in front of the comma behind
it, a recognised word has no flag that the names lack, and the names have the flag of EDGE_RISING
where an unrecognised word has a comma behind it. -/
structure HarmlessWords (l : Line) : Prop where
  fits : l.Fits
  words : ∀ w ∈ l.words, w.length < gpiodTabMaxArgumentLength
  through : Through l.first l.further
  recognised : ∀ w ∈ l.words, Known w → tabParseMod w ||| nameFlags l = nameFlags l
  unrecognised : ∀ w ∈ l.words.dropLast, ¬ Known w →
    hooktabModRise ||| nameFlags l = nameFlags l

/-! ### Lines with the words deleted -/

variable {l l' : Line}

lemma isName_of_mem {w : Str} (h : w ∈ names l) : IsName w :=
  of_decide_eq_true (List.mem_filter.mp h).2

lemma Deleted.hook (h : Deleted l l') : l'.hook = hookOf (nameFlags l) l.tokens := by
  rw [Line.hook, h.words, h.tokens, nameFlags]

lemma Deleted.fits (h : Deleted l l') (hf : l.Fits) : l'.Fits :=
  ⟨h.label ▸ hf.label, h.tokens ▸ hf.tokens⟩

lemma Deleted.loadLine (h : Deleted l l') (hs : Short l'.first l'.further) (hf : l.Fits)
    (gp_list : List GpioPin) (stale : Mem) : TabBuffer.loadLine gp_list (l'.text ++ 0 :: stale) =
      .ok (attachHook gp_list l.label.text (hookOf (nameFlags l) l.tokens)) := by
  rw [← h.hook, ← h.label]
  exact loadLine_names l' (fun w hw => isName_of_mem (h.words ▸ hw)) hs (h.fits hf) gp_list stale

lemma attachHook_known {gp_list : List GpioPin} {label : Str} {k : ℕ}
    (hk : findPinByLabel gp_list (keep label) = some k) (hook : GpiodHook) :
    attachHook gp_list label hook = gp_list.modify k (·.addHook hook) := by
  rw [attachHook, hk]

/-- A list with a space on both sides of every comma. -/
def spaced (ws : List Word) : List Further :=
  ws.map fun w => ⟨[0x20], [0x20], w, blanks_space, blanks_space⟩

lemma short_spaced (w : Word) (ws : List Word) (h : ∀ u ∈ w :: ws, u.text.length < 256) :
    Short w (spaced ws) := by
  induction ws generalizing w with
  | nil => exact h w List.mem_cons_self
  | cons u ws ih =>
    obtain ⟨hw, hrest⟩ := List.forall_mem_cons.mp h
    refine ⟨?_, ih u hrest⟩
    rw [stretch_of_pre_ne (List.cons_ne_nil _ _)]
    exact hw

/-- The words can be deleted so that every stretch is short. -/
lemma exists_deleted (l : Line) (h : names l ≠ []) :
    ∃ l', Deleted l l' ∧ Short l'.first l'.further := by
  have hfilter : names l = ((l.first :: l.further.map (·.word)).filter
      fun w => IsName w.text).map (·.text) := by
    have hwords : l.words = (l.first :: l.further.map (·.word)).map (·.text) := by
      simp [Line.words]
    rw [names, hwords, List.filter_map]
    rfl
  cases hws : (l.first :: l.further.map (·.word)).filter fun w => IsName w.text with
  | nil =>
    rw [hws, List.map_nil] at hfilter
    exact absurd hfilter h
  | cons w ws =>
    have hnames : ∀ u ∈ w :: ws, IsName u.text := by
      intro u hu
      rw [← hws] at hu
      exact of_decide_eq_true (List.mem_filter.mp hu).2
    refine ⟨{ l with first := w, further := spaced ws }, ⟨rfl, ?_, rfl⟩,
      short_spaced w ws fun u hu => (hnames u hu).short.trans (by decide)⟩
    rw [hfilter, hws]
    simp [Line.words, spaced]

/-! ### Reading right -/

/-- The pin that a line is loaded for. -/
def labelledPin (label : Str) : GpioPin := ⟨label, 0, .sysfs, .both, 0, []⟩

lemma find_labelled (label : Str) : findPinByLabel [labelledPin label] label = some 0 := by
  simp [findPinByLabel, labelledPin, strncmpEq_length]

lemma extra_nil {g g' : ℕ} {extra ts : List Str} {p : Str}
    (h : (hookOf g (extra ++ p :: ts)).arg_list = (hookOf g' (p :: ts)).arg_list) : extra = [] := by
  have hlen := congrArg List.length h
  cases extra with
  | nil => rfl
  | cons e extra =>
    simp only [hookOf, entries, List.cons_append, List.length_append, List.length_map,
      List.length_cons] at hlen
    omega

lemma hookOf_flags (g : ℕ) (ts : List Str) : (hookOf g ts).flags = g := by
  cases ts <;> rfl

/-- The loop reads the list to its end, what it reads fits and has the flags of the names. -/
structure ReadsRight (l : Line) : Prop where
  fits : l.Fits
  words : ∀ w ∈ (scan l.first l.further).1.read, w.length < gpiodTabMaxArgumentLength
  ends : (scan l.first l.further).1.ends = true
  flags : join wordFlags 0 (scan l.first l.further).1.read = nameFlags l

lemma ReadsRight.addNothing (h : ReadsRight l) : AddNothing l := by
  intro l' hdel hs gp_list k hk stale stale'
  obtain ⟨extra, hhook, hiff⟩ := tabHook_line l stale
  rw [hiff.mpr h.ends, h.flags, List.nil_append] at hhook
  have hline := loadLine_hook h.fits.label ((hhook _).mpr ⟨⟨h.words, h.fits.tokens⟩, rfl⟩) gp_list
  have hline' := hdel.loadLine hs h.fits gp_list stale'
  rw [attachHook_known hk] at hline hline'
  exact ⟨_, _, hline, hline', rfl, rfl, rfl⟩

lemma tabHook_of_labelled {stale : Mem} {hook : GpiodHook}
    (h : TabBuffer.loadLine [labelledPin (keep l.label.text)] (l.text ++ 0 :: stale) =
      .ok ([labelledPin (keep l.label.text)].modify 0 (·.addHook hook))) :
    l.label.text.length % 256 < gpiodTabMaxArgumentLength ∧
      TabBuffer.tabHook (afterToken l.text ++ 0 :: stale) = .ok hook := by
  obtain ⟨hlabel, hbehind⟩ := loadLine_eq.mp h
  rw [l.token_text.1] at hlabel hbehind
  rw [find_labelled] at hbehind
  obtain ⟨hook', hhook, hsame⟩ := hbehind
  obtain rfl : hook = hook' := by simpa [labelledPin, GpioPin.addHook] using hsame
  exact ⟨hlabel, hhook⟩

lemma AddNothing.readsRight (h : AddNothing l) (hn : names l ≠ []) : ReadsRight l := by
  obtain ⟨l', hdel, hs⟩ := exists_deleted l hn
  have hk := find_labelled (keep l.label.text)
  obtain ⟨hook, hook', hload, hload', hflags, -, hargs⟩ := h l' hdel hs _ _ hk [] []
  obtain ⟨extra, hhook, hiff⟩ := tabHook_line l []
  obtain ⟨hlabel, hmade⟩ := tabHook_of_labelled hload
  obtain ⟨⟨hwords, htokens⟩, rfl⟩ := (hhook _).mp hmade
  have hfits : l.Fits := ⟨hlabel, fun t ht => htokens t (List.mem_append_right _ ht)⟩
  have hline' := hdel.loadLine hs hfits [labelledPin (keep l.label.text)] []
  rw [attachHook_known hk] at hline'
  obtain rfl : hook' = hookOf (nameFlags l) l.tokens := by
    have hsame := Except.ok.inj (hload'.symm.trans hline')
    simpa [labelledPin, GpioPin.addHook] using hsame
  rw [hookOf_flags, hookOf_flags] at hflags
  exact ⟨hfits, hwords, hiff.mp (extra_nil hargs), hflags⟩

/-! ### Harmless lines -/

lemma wordFlags_nil : wordFlags [] = hooktabModRise := by decide

lemma join_read (f : ℕ) (us : List Cut) :
    join wordFlags f (us.flatMap Cut.read) = join seenFlags f us := by
  induction us generalizing f with
  | nil => rfl
  | cons u us ih =>
    obtain ⟨w, c⟩ := u
    rw [List.flatMap_cons, join_append, ih, join_cons]
    by_cases hk : Known w
    · simp [Cut.read, seenFlags, hk, wordFlags_known hk]
    · cases c <;> simp [Cut.read, seenFlags, hk, wordFlags_unknown hk, wordFlags_nil]

lemma forall_read {us : List Cut} :
    (∀ w ∈ us.flatMap Cut.read, w.length < gpiodTabMaxArgumentLength) ↔
      ∀ u ∈ us, u.1.length < gpiodTabMaxArgumentLength := by
  have hempty : (0 : ℕ) < gpiodTabMaxArgumentLength := by decide
  have hread : ∀ u : Cut, (∀ w ∈ Cut.read u, w.length < gpiodTabMaxArgumentLength) ↔
      u.1.length < gpiodTabMaxArgumentLength := by
    intro u
    unfold Cut.read
    split <;> simp [hempty]
  simp only [List.mem_flatMap, forall_exists_index, and_imp]
  exact ⟨fun h u hu => (hread u).mp fun w hw => h w u hu hw,
    fun h w u hu => (hread u).mpr (h u hu) w⟩

lemma readsRight_iff_harmless : ReadsRight l ↔ Harmless l := by
  have hends := (scan_ends_iff l.first l.further).1
  have hread := (scan_read_of_ends l.first l.further).1
  constructor
  · rintro ⟨hfits, hwords, he, hflags⟩
    rw [hread he] at hwords hflags
    exact ⟨hfits, forall_read.mp hwords, hends.mp he, (join_read 0 _).symm.trans hflags⟩
  · rintro ⟨hfits, hwords, hpassed, hflags⟩
    have he := hends.mpr hpassed
    refine ⟨hfits, ?_, he, ?_⟩
    · rw [hread he]
      exact forall_read.mpr hwords
    · rw [hread he, join_read]
      exact hflags

lemma forall_readAll {p : Str → Prop} (w : Word) (fs : List Further) :
    (∀ u ∈ readAll w fs, p u) ↔
      (∀ u ∈ w.text :: fs.map (·.word.text), p u) ∧
        ∀ u ∈ (w.text :: fs.map (·.word.text)).dropLast, ¬ Known u → p [] := by
  induction fs generalizing w with
  | nil => simp [readAll]
  | cons f fs ih =>
    have hall : (∀ u ∈ readAll w (f :: fs), p u) ↔
        p w.text ∧ (¬ Known w.text → p []) ∧ ∀ u ∈ readAll f.word fs, p u := by
      by_cases hk : Known w.text <;> simp [readAll, hk]
    rw [hall, ih, List.map_cons, List.dropLast_cons_of_ne_nil (List.cons_ne_nil _ _),
      List.forall_mem_cons (a := w.text), List.forall_mem_cons (a := w.text)]
    tauto

lemma names_subset_readAll (l : Line) : names l ⊆ readAll l.first l.further := by
  intro w hw
  exact ((forall_readAll (p := (· ∈ readAll l.first l.further)) _ _).mp fun _ h => h).1 w
    (List.mem_filter.mp hw).1

lemma join_readAll (l : Line) : join wordFlags 0 (readAll l.first l.further) = nameFlags l ↔
    (∀ w ∈ l.words, Known w → tabParseMod w ||| nameFlags l = nameFlags l) ∧
      ∀ w ∈ l.words.dropLast, ¬ Known w → hooktabModRise ||| nameFlags l = nameFlags l := by
  have hnames : nameFlags l = join wordFlags 0 (names l) :=
    (join_known (fun w hw => (isName_of_mem hw).known) 0).symm
  rw [hnames, join_eq_iff_of_subset wordFlags (names_subset_readAll l), ← hnames, forall_readAll,
    wordFlags_nil]
  refine and_congr_left fun _ => forall₂_congr fun w _ => ?_
  by_cases hk : Known w
  · simp [hk, wordFlags_known hk]
  · simp [hk, wordFlags_unknown hk]

lemma harmless_iff_words (hs : Short l.first l.further) : Harmless l ↔ HarmlessWords l := by
  obtain ⟨hends, hread⟩ := scan_of_short hs
  have hempty : (([] : Str).length) < gpiodTabMaxArgumentLength := by decide
  have hlen : (∀ w ∈ readAll l.first l.further, w.length < gpiodTabMaxArgumentLength) ↔
      ∀ w ∈ l.words, w.length < gpiodTabMaxArgumentLength := by
    rw [forall_readAll, and_iff_left fun _ _ _ => hempty]
    rfl
  rw [← readsRight_iff_harmless]
  constructor
  · rintro ⟨hfits, hwords, he, hflags⟩
    have ht := hends.mp he
    rw [hread ht] at hwords hflags
    obtain ⟨hr, hu⟩ := (join_readAll l).mp hflags
    exact ⟨hfits, hlen.mp hwords, ht, hr, hu⟩
  · rintro ⟨hfits, hwords, ht, hr, hu⟩
    refine ⟨hfits, ?_, hends.mpr ht, ?_⟩
    · rw [hread ht]
      exact hlen.mpr hwords
    · rw [hread ht]
      exact (join_readAll l).mpr ⟨hr, hu⟩

lemma foo_token : Solid (bytes "FOO") ∧ bytes "FOO" ≠ [] ∧ 0x2c ∉ bytes "FOO" := by decide
lemma falling_token : Solid (bytes "EDGE_FALLING") ∧ bytes "EDGE_FALLING" ≠ [] ∧
    0x2c ∉ bytes "EDGE_FALLING" := by decide

def fooWord : Word := ⟨bytes "FOO", foo_token.1, foo_token.2.1, foo_token.2.2⟩
def fallingWord : Word :=
  ⟨bytes "EDGE_FALLING", falling_token.1, falling_token.2.1, falling_token.2.2⟩

/-- `WD0 FOO`, blanks, a comma and a word, then ` /bin/a` and a line feed. -/
def fooLine (pre : Str) (h : Blanks pre) (w : Word) : Line :=
  ⟨[], wd0, space, fooWord, [⟨pre, [], w, h, blanks_none⟩], space, binA, [], [], .lf,
    blanks_none, bin_ne_comma, blanks_none⟩

lemma names_foo_rising : names (fooLine [] blanks_none risingWord) = [bytes "EDGE_RISING"] := by
  decide

lemma names_foo_falling {pre : Str} (h : Blanks pre) :
    names (fooLine pre h fallingWord) = [bytes "EDGE_FALLING"] := by
  have hwords : (fooLine pre h fallingWord).words = [bytes "FOO", bytes "EDGE_FALLING"] := rfl
  rw [names, hwords]
  decide

end Gpiod.Unknown
