import Mathlib.Tactic.Common
import Gpiod.TabRoute
import Gpiod.TabWords

/-!
The modifiers field of a tab line as a list of names, and the flags the modifier loop makes
of it.

Names are separated by commas, with blanks on either side of a comma where the line has
them. The loop reads every name as it stands as long as no stretch of the field free of
blanks is longer than 255 bytes; of a longer one it may cut a name short and run over the
rest, and the words it then reads are given by `words`. A list of names is one of words, so the
loop over it is that of `TabWords`.
-/

namespace Gpiod.TabMods

open Gpiod.Pin Gpiod.TabScan Gpiod.TabField Gpiod.TabArgs Gpiod.TabRoute Gpiod.Mask
open Gpiod.TabWords (Word ListTail scan scan_seen scan_cut kept kept_of_short comma_of_short
  stretch_of_pre_ne)

inductive ModName
  | edgeRising | edgeFalling | edgeBoth | noLoop | oneshot
  deriving DecidableEq, Repr

def ModName.text : ModName → Str
  | .edgeRising => bytes "EDGE_RISING"
  | .edgeFalling => bytes "EDGE_FALLING"
  | .edgeBoth => bytes "EDGE_BOTH"
  | .noLoop => bytes "NO_LOOP"
  | .oneshot => bytes "ONESHOT"

lemma text_length_lt (n : ModName) : n.text.length < 256 := by cases n <;> decide
lemma text_solid (n : ModName) : Solid n.text := by cases n <;> decide
lemma text_no_comma (n : ModName) : 0x2c ∉ n.text := by cases n <;> decide
lemma text_ne (n : ModName) : n.text ≠ [] := by cases n <;> decide

def ModName.word (n : ModName) : Word := ⟨n.text, text_solid n, text_ne n, text_no_comma n⟩

/-- A further name of a list, with the blanks in front of its comma and behind it. -/
structure Further where
  pre : Str
  post : Str
  name : ModName
  pre_blanks : Blanks pre
  post_blanks : Blanks post

def Further.toWord (f : Further) : TabWords.Further :=
  ⟨f.pre, f.post, f.name.word, f.pre_blanks, f.post_blanks⟩

lemma blanks_nil : Blanks [] := List.forall_mem_nil _

/-- A further name right behind its comma, and the comma right behind the name before. -/
def behindComma (n : ModName) : Further := ⟨[], [], n, blanks_nil, blanks_nil⟩

def fieldText (n : ModName) (fs : List Further) : Str :=
  TabWords.fieldText n.word (fs.map Further.toWord)

/-- A tab line whose modifiers field is a list of names: what stands behind the list stops its
last name and brings no further comma. -/
structure TabLine where
  lead : Str
  label : Str
  sep : Str
  first : ModName
  further : List Further
  rest : Str
  lead_blanks : Blanks lead
  label_solid : Solid label
  label_ne : label ≠ []
  sep_blanks : Blanks sep
  sep_ne : sep ≠ []
  rest_stops : ∀ r ∈ rest.head?, Stops r
  rest_ends : ∀ s z, rest = s ++ 0x2c :: z → ¬ Blanks s

namespace TabLine

def text (l : TabLine) : Str :=
  l.lead ++ (l.label ++ (l.sep ++ (fieldText l.first l.further ++ l.rest)))

def names (l : TabLine) : List ModName := l.first :: l.further.map (·.name)

lemma ends_of_no_comma {rest : Str} (h : 0x2c ∉ rest) :
    ∀ s z, rest = s ++ 0x2c :: z → ¬ Blanks s := by
  rintro s z rfl
  simp at h

end TabLine

/-! ### The words read -/

/-- The stretch free of blanks that begins with a name of the list. -/
def stretch (n : ModName) (fs : List Further) : Str :=
  TabWords.stretch n.word (fs.map Further.toWord)

/-- `memchr` sees the comma behind a name. -/
def CommaSeen (n : ModName) (f : Further) (fs : List Further) : Prop :=
  TabWords.CommaSeen n.word f.toWord (fs.map Further.toWord)

instance (n : ModName) (f : Further) (fs : List Further) : Decidable (CommaSeen n f fs) :=
  inferInstanceAs (Decidable (TabWords.CommaSeen _ _ _))

/-- The words read with the cursor at a name, and those read once the loop has run over the
stretch the name stands in. -/
def words : ModName → List Further → List Str × List Str
  | n, [] => ([n.text], [])
  | n, f :: fs =>
    let further := words f.name fs
    let behind := if f.pre ≠ [] then further.1 else if f.post ≠ [] then [] else further.2
    (if CommaSeen n f fs then n.text :: further.1
      else n.text.take ((stretch n (f :: fs)).length % 256) :: behind, behind)

/-- The words the modifier loop reads of the line. -/
def TabLine.read (l : TabLine) : List Str := (words l.first l.further).1

/-- No stretch of the field that begins with a name is longer than 255 bytes. -/
def Short (n : ModName) (fs : List Further) : Prop :=
  TabWords.Short n.word (fs.map Further.toWord)

lemma words_seen {n : ModName} {f : Further} {fs : List Further} (h : CommaSeen n f fs) :
    (words n (f :: fs)).1 = n.text :: (words f.name fs).1 := by
  simp [words, h]

lemma words_cut {n : ModName} {f : Further} {fs : List Further} (h : ¬ CommaSeen n f fs) :
    (words n (f :: fs)).1 =
      n.text.take ((stretch n (f :: fs)).length % 256) :: (words n (f :: fs)).2 := by
  simp [words, h]

lemma behind_blank {n : ModName} {f : Further} {fs : List Further} (h : f.pre ≠ []) :
    (words n (f :: fs)).2 = (words f.name fs).1 := by
  simp [words, h]

lemma behind_comma {n : ModName} {f : Further} {fs : List Further} (h : f.pre = [])
    (hpost : f.post ≠ []) : (words n (f :: fs)).2 = [] := by
  simp [words, h, hpost]

lemma behind_name {n : ModName} {f : Further} {fs : List Further} (h : f.pre = [])
    (hpost : f.post = []) : (words n (f :: fs)).2 = (words f.name fs).2 := by
  simp [words, h, hpost]

/-- **The words of a short field** are its names. -/
theorem words_of_short {n : ModName} {fs : List Further} (h : Short n fs) :
    (words n fs).1 = (n :: fs.map (·.name)).map ModName.text := by
  induction fs generalizing n with
  | nil => rfl
  | cons f fs ih =>
    obtain ⟨hlen, hrest⟩ := h
    have ih := ih hrest
    by_cases hp : f.pre = []
    · rw [words_seen (comma_of_short hp hlen), ih]
      rfl
    · have hstretch : stretch n (f :: fs) = n.text := stretch_of_pre_ne hp
      rw [words_cut fun hc => hp hc.1, behind_blank hp, ih, hstretch,
        Nat.mod_eq_of_lt (text_length_lt n), List.take_length]
      rfl

lemma words_begin_name (n : ModName) (fs : List Further) :
    (∀ w ∈ (words n fs).1, ∃ m ∈ n :: fs.map (·.name), w <+: m.text) ∧
      ∀ w ∈ (words n fs).2, ∃ m ∈ n :: fs.map (·.name), w <+: m.text := by
  induction fs generalizing n with
  | nil => simp [words]
  | cons f fs ih =>
    obtain ⟨ih1, ih2⟩ := ih f.name
    have hup : ∀ {w : Str}, (∃ m ∈ f.name :: fs.map (·.name), w <+: m.text) →
        ∃ m ∈ n :: (f :: fs).map (·.name), w <+: m.text := by
      rintro w ⟨m, hm, hw⟩
      exact ⟨m, List.mem_cons_of_mem _ (by simpa using hm), hw⟩
    have hbehind : ∀ w ∈ (words n (f :: fs)).2,
        ∃ m ∈ n :: (f :: fs).map (·.name), w <+: m.text := by
      intro w hw
      by_cases hp : f.pre = []
      · by_cases hpost : f.post = []
        · exact hup (ih2 w (behind_name hp hpost ▸ hw))
        · rw [behind_comma hp hpost] at hw
          cases hw
      · exact hup (ih1 w (behind_blank hp ▸ hw))
    refine ⟨fun w hw => ?_, hbehind⟩
    by_cases hc : CommaSeen n f fs
    · rw [words_seen hc] at hw
      rcases List.mem_cons.mp hw with rfl | hw
      · exact ⟨n, by simp, List.prefix_refl _⟩
      · exact hup (ih1 w hw)
    · rw [words_cut hc] at hw
      rcases List.mem_cons.mp hw with rfl | hw
      · exact ⟨n, by simp, List.take_prefix _ _⟩
      · exact hbehind w hw

/-! ### The field as a list of words -/

lemma known_take (n : ModName) (k : ℕ) : Known (n.text.take k) := by
  have hshort : ∀ n : ModName, n.text.length ≤ 12 ∧ ∀ k ≤ 12, Known (n.text.take k) := by
    intro n; cases n <;> decide
  rcases Nat.le_total k 12 with h | h
  · exact (hshort n).2 k h
  · rw [List.take_of_length_le (Nat.le_trans (hshort n).1 h),
      ← List.take_of_length_le (hshort n).1]
    exact (hshort n).2 12 (Nat.le_refl _)

lemma known_text (n : ModName) : Known n.text := by simpa using known_take n n.text.length

/-- The words read are those of the scan, since every beginning of a name is recognised. -/
lemma scan_read (n : ModName) (fs : List Further) :
    (scan n.word (fs.map Further.toWord)).1.read = (words n fs).1 ∧
      (scan n.word (fs.map Further.toWord)).2.read = (words n fs).2 := by
  induction fs generalizing n with
  | nil =>
    have hlt : (TabWords.stretch n.word []).length < 256 := text_length_lt n
    have hkept : kept n.word [] = n.text := kept_of_short hlt
    refine ⟨?_, rfl⟩
    rw [List.map_nil, scan, hkept]
    rfl
  | cons f fs ih =>
    obtain ⟨ih1, ih2⟩ := ih f.name
    have hbehind : (scan n.word ((f :: fs).map Further.toWord)).2.read =
        (words n (f :: fs)).2 := by
      by_cases hp : f.pre = []
      · by_cases hpost : f.post = []
        · simp [scan, words, Further.toWord, hp, hpost, ← ih2]
        · simp [scan, words, Further.toWord, hp, hpost]
      · simp [scan, words, Further.toWord, hp, ← ih1]
    refine ⟨?_, hbehind⟩
    by_cases hc : CommaSeen n f fs
    · rw [words_seen hc, ← ih1, List.map_cons, scan_seen hc (known_text n)]
      rfl
    · have hk : Known (kept n.word ((f :: fs).map Further.toWord)) := known_take n _
      rw [words_cut hc, ← hbehind]
      rw [List.map_cons] at hk ⊢
      rw [scan_cut hc hk]
      rfl

lemma TabLine.listTail (l : TabLine) (stale : Mem) :
    ListTail (fun _ _ => True) (l.rest ++ 0 :: stale) := by
  rcases comma_or_not l.rest with ⟨s, z, hsz, hs⟩ | hrest
  · exact absurd hs (l.rest_ends s z hsz)
  · obtain ⟨c, m, he, hc⟩ := hrest stale
    exact .of_stops (stop_behind l.rest_stops stale) he hc

/-! ### The flags of a hook -/

lemma TabLine.read_begin_name (l : TabLine) : ∀ w ∈ l.read, ∃ m ∈ l.names, w <+: m.text :=
  (words_begin_name l.first l.further).1

lemma eq_take_of_begin {m : ModName} {w : Str} (hw : w <+: m.text) :
    ∃ k ≤ 12, w = m.text.take k := by
  have hlen : m.text.length ≤ 12 := by cases m <;> decide
  exact ⟨w.length, Nat.le_trans hw.length_le hlen, List.prefix_iff_eq_take.mp hw⟩

lemma known_of_begin {m : ModName} {w : Str} (hw : w <+: m.text) : Known w := by
  obtain ⟨k, -, rfl⟩ := eq_take_of_begin hw
  exact known_take m k

lemma TabLine.read_known (l : TabLine) : ∀ w ∈ l.read, Known w := fun w hw => by
  obtain ⟨m, -, hm⟩ := l.read_begin_name w hw
  exact known_of_begin hm

lemma tabLabel_text (l : TabLine) (stale : Mem) :
    tabLabel (l.text ++ 0 :: stale) = .ok (keep l.label,
      l.sep ++ (fieldText l.first l.further ++ (l.rest ++ 0 :: stale))) := by
  unfold TabLine.text
  simp only [List.append_assoc]
  exact tabLabel_field l.lead_blanks l.label_solid l.label_ne l.sep_blanks l.sep_ne _

/-- **The flags of the hook of a line** are those of the words read, whatever stands behind its
NUL. -/
theorem lineHook_flags (l : TabLine) {stale : Mem} {hook : GpiodHook}
    (h : lineHook (l.text ++ 0 :: stale) = .ok hook) :
    hook.flags = join tabParseMod 0 l.read := by
  simp only [lineHook, tabLabel_text, bind, Except.bind] at h
  obtain ⟨flags, tmp2, -, -, args, hl, -, -, -, rfl⟩ := tabHook_ok h
  obtain ⟨y, hcuts, -⟩ := ((l.listTail stale).follows l.first.word
    (l.further.map Further.toWord)).1 l.sep l.sep_blanks
  rw [(scan_read _ _).1] at hcuts
  have hloop := hl.symm.trans (hcuts.run _ 0 (Nat.lt_succ_self _))
  rw [← join_known l.read_known]
  exact (Prod.mk.inj (Except.ok.inj hloop)).1

end Gpiod.TabMods
