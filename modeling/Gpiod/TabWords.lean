import Gpiod.TabArgs

/-!
The modifiers field of a tab line as a list of words, recognised or not, and what the modifier
loop reads of it.

A recognised word is followed by a look for a comma, an unrecognised one is not: the loop ends
behind it, or goes on at the comma `memchr` has found, and then reads an empty word in front of
that comma. `scan` follows the loop along the list, also where the eight-bit length of a stretch
cuts a word short or hides a comma.
-/

namespace Gpiod.TabWords

open Gpiod.Pin Gpiod.TabScan Gpiod.TabField Gpiod.TabArgs Gpiod.Mask

structure Word where
  text : Str
  solid : Solid text
  ne : text ≠ []
  no_comma : 0x2c ∉ text

/-- A further word of a list, with the blanks in front of its comma and behind it. -/
structure Further where
  pre : Str
  post : Str
  word : Word
  pre_blanks : Blanks pre
  post_blanks : Blanks post

def fieldText : Word → List Further → Str
  | w, [] => w.text
  | w, f :: fs => w.text ++ (f.pre ++ 0x2c :: (f.post ++ fieldText f.word fs))

/-- The stretch free of blanks that begins with a word of the list. -/
def stretch : Word → List Further → Str
  | w, [] => w.text
  | w, f :: fs =>
    if f.pre = [] then w.text ++ 0x2c :: (if f.post = [] then stretch f.word fs else [])
    else w.text

/-- The text of the list behind the stretch that begins with a word. -/
def behindText : List Further → Str
  | [] => []
  | f :: fs =>
    if f.pre = [] then
      if f.post = [] then behindText fs else f.post ++ fieldText f.word fs
    else f.pre ++ 0x2c :: (f.post ++ fieldText f.word fs)

/-- The stretch that begins with the comma in front of a further word, the blanks left out. -/
def commaStretch (f : Further) (fs : List Further) : Str :=
  0x2c :: (if f.post = [] then stretch f.word fs else [])

def behindComma (f : Further) (fs : List Further) : Str :=
  if f.post = [] then behindText fs else f.post ++ fieldText f.word fs

lemma stretch_of_pre {w : Word} {f : Further} {fs : List Further} (h : f.pre = []) :
    stretch w (f :: fs) = w.text ++ commaStretch f fs := by
  simp [stretch, commaStretch, h]

lemma stretch_of_pre_ne {w : Word} {f : Further} {fs : List Further} (h : f.pre ≠ []) :
    stretch w (f :: fs) = w.text := by
  simp [stretch, h]

lemma stretch_solid (w : Word) (fs : List Further) : Solid (stretch w fs) := by
  induction fs generalizing w with
  | nil => exact w.solid
  | cons f fs ih =>
    have hcomma : Solid [0x2c] := by decide
    by_cases hp : f.pre = []
    · rw [stretch_of_pre hp, commaStretch, ← List.singleton_append, Solid.append, Solid.append]
      refine ⟨w.solid, hcomma, ?_⟩
      split
      · exact ih f.word
      · simp [Solid]
    · rw [stretch_of_pre_ne hp]
      exact w.solid

lemma commaStretch_solid (f : Further) (fs : List Further) : Solid (commaStretch f fs) := by
  have hcomma : Solid [0x2c] := by decide
  rw [commaStretch, ← List.singleton_append, Solid.append]
  refine ⟨hcomma, ?_⟩
  split
  · exact stretch_solid f.word fs
  · simp [Solid]

lemma stretch_ne (w : Word) (fs : List Further) : stretch w fs ≠ [] := by
  cases fs with
  | nil => exact w.ne
  | cons f fs =>
    by_cases hp : f.pre = []
    · simp [stretch_of_pre hp, commaStretch]
    · rw [stretch_of_pre_ne hp]
      exact w.ne

lemma fieldText_split (w : Word) (fs : List Further) :
    fieldText w fs = stretch w fs ++ behindText fs := by
  induction fs generalizing w with
  | nil => simp [fieldText, stretch, behindText]
  | cons f fs ih =>
    by_cases hp : f.pre = []
    · by_cases hpost : f.post = [] <;> simp [fieldText, stretch, behindText, hp, hpost, ih]
    · simp [fieldText, stretch, behindText, hp]

lemma comma_split (f : Further) (fs : List Further) :
    0x2c :: (f.post ++ fieldText f.word fs) = commaStretch f fs ++ behindComma f fs := by
  by_cases hpost : f.post = []
  · simp [commaStretch, behindComma, hpost, fieldText_split]
  · simp [commaStretch, behindComma, hpost]

lemma field_head (w : Word) (fs : List Further) :
    ∃ c x, fieldText w fs = c :: x ∧ isBlank c = false ∧ c ≠ 0x2c := by
  obtain ⟨c, x, hx⟩ := List.exists_cons_of_ne_nil w.ne
  have hc : c ∈ w.text := by simp [hx]
  refine ⟨c, x ++ (fieldText w fs).drop w.text.length, ?_,
    not_blank_of_not_space (w.solid c hc).2, fun h => w.no_comma (h ▸ hc)⟩
  cases fs <;> simp [fieldText, hx]

/-! ### What the loop reads -/

/-- The words that the loop cuts, recognised or not, and whether it ends behind the whole list. -/
structure Scan where
  read : List Str
  ends : Bool

def Scan.cons (w : Str) (sc : Scan) : Scan := ⟨w :: sc.read, sc.ends⟩

@[simp] lemma Scan.cons_read (w : Str) (sc : Scan) : (sc.cons w).read = w :: sc.read := rfl
@[simp] lemma Scan.cons_ends (w : Str) (sc : Scan) : (sc.cons w).ends = sc.ends := rfl

/-- `memchr` sees the comma behind a word: it stands right there, and the eight-bit length of the
stretch reaches it. -/
def CommaSeen (w : Word) (f : Further) (fs : List Further) : Prop :=
  f.pre = [] ∧ w.text.length < (stretch w (f :: fs)).length % 256

instance (w : Word) (f : Further) (fs : List Further) : Decidable (CommaSeen w f fs) :=
  inferInstanceAs (Decidable (_ ∧ _))

/-- What the eight-bit length of its stretch leaves of a word. -/
def kept (w : Word) (fs : List Further) : Str := w.text.take ((stretch w fs).length % 256)

/-- The stretch with the word in front goes on to the end of the list. -/
def runsOut : List Further → Bool
  | [] => true
  | f :: fs => decide (f.pre = [] ∧ f.post = []) && runsOut fs

/-- The loop from a word on, and its rest once a recognised word has taken it behind the stretch
the word stands in. -/
def scan : Word → List Further → Scan × Scan
  | w, [] => (⟨[kept w []], true⟩, ⟨[], true⟩)
  | w, f :: fs =>
    let next := scan f.word fs
    let behind := if f.pre ≠ [] then next.1 else if f.post ≠ [] then ⟨[], false⟩ else next.2
    let here :=
      if CommaSeen w f fs then
        -- an unrecognised word leaves the loop at the comma, in front of which it cuts no bytes
        (if Known w.text then next.1 else next.1.cons []).cons w.text
      else if Known (kept w (f :: fs)) then behind.cons (kept w (f :: fs))
      else ⟨[kept w (f :: fs)], runsOut (f :: fs)⟩
    (here, behind)

lemma scan_seen {w : Word} {f : Further} {fs : List Further} (h : CommaSeen w f fs)
    (hk : Known w.text) : (scan w (f :: fs)).1 = (scan f.word fs).1.cons w.text := by
  simp [scan, h, hk]

lemma scan_cut {w : Word} {f : Further} {fs : List Further} (h : ¬ CommaSeen w f fs)
    (hk : Known (kept w (f :: fs))) :
    (scan w (f :: fs)).1 = (scan w (f :: fs)).2.cons (kept w (f :: fs)) := by
  simp [scan, h, hk]

/-- The loop goes on so behind a recognised word in whose stretch no comma was seen. -/
def CutsBehind (t : Mem) (ws : List Str) (y : Mem) : Prop :=
  ∀ m v, cutWord m = .ok (v, false, t) → Known v → Cuts m (v :: ws) y

/-! ### The loop along the list -/

/-- The loop cuts of a text what the scan says, and leaves its cursor at a place that has the
property `L` of ending the list or not. -/
def Follows (L : Bool → Mem → Prop) (m : Mem) (sc : Scan) : Prop :=
  ∃ y, Cuts m sc.read y ∧ L sc.ends y

/-- So it does behind a stretch in which a recognised word was cut. -/
def FollowsBehind (L : Bool → Mem → Prop) (t : Mem) (sc : Scan) : Prop :=
  ∃ y, CutsBehind t sc.read y ∧ L sc.ends y

/-- The loop on the list from a word on. -/
def FollowsField (L : Bool → Mem → Prop) (tail : Mem) (w : Word) (fs : List Further) (sc : Scan) :
    Prop := ∀ b, Blanks b → Follows L (b ++ (fieldText w fs ++ tail)) sc

lemma stops_of_blanks {b : Str} (hb : Blanks b) (hne : b ≠ []) (x : Mem) :
    ∃ r m, b ++ x = r :: m ∧ Stops r := by
  obtain ⟨r, t, rfl⟩ := List.exists_cons_of_ne_nil hne
  exact ⟨r, t ++ x, rfl, Or.inr (space_of_blank (hb r List.mem_cons_self))⟩

/-- A text behind the list: it stops the last stretch, the loop that has read the last word ends
there, and the places behind a stretch and in front of a word have the property. -/
structure ListTail (L : Bool → Mem → Prop) (tail : Mem) : Prop where
  stops : ∃ r m, tail = r :: m ∧ Stops r
  last : FollowsBehind L tail ⟨[], true⟩
  behind : ∀ fs, L (runsOut fs) (behindText fs ++ tail)
  field : ∀ w fs b, Blanks b → L false (b ++ (fieldText w fs ++ tail))

lemma ListTail.of_stops {x tail : Mem} {c : UInt8} (hstops : ∃ r m, tail = r :: m ∧ Stops r)
    (ht : eatSpace tail = .ok (c :: x)) (hcc : c ≠ 0x2c) : ListTail (fun _ _ => True) tail :=
  ⟨hstops, ⟨_, fun _ _ hcut hv => cuts_end hcut hv ht hcc, trivial⟩, fun _ => trivial,
    fun _ _ _ _ => trivial⟩

section Places

variable {tail : Mem}

lemma behind_stops (h : ∃ r m, tail = r :: m ∧ Stops r) (fs : List Further) :
    ∃ r m, behindText fs ++ tail = r :: m ∧ Stops r := by
  induction fs with
  | nil => exact h
  | cons f fs ih =>
    by_cases hp : f.pre = []
    · by_cases hpost : f.post = []
      · simpa [behindText, hp, hpost] using ih
      · simp only [behindText, hp, hpost, ↓reduceIte, List.append_assoc]
        exact stops_of_blanks f.post_blanks hpost _
    · simp only [behindText, hp, ↓reduceIte, List.append_assoc]
      exact stops_of_blanks f.pre_blanks hp _

lemma comma_stops (h : ∃ r m, tail = r :: m ∧ Stops r) (f : Further) (fs : List Further) :
    ∃ r m, behindComma f fs ++ tail = r :: m ∧ Stops r := by
  unfold behindComma
  split
  · exact behind_stops h fs
  · next hpost =>
    rw [List.append_assoc]
    exact stops_of_blanks f.post_blanks hpost _

variable {L : Bool → Mem → Prop}

/-- No comma is seen in the stretch: the word read is what is kept of it. -/
lemma follows_piece {b p t : Mem} {sc : Scan} {e : Bool} (hb : Blanks b) (hp : Solid p)
    (hne : p ≠ []) (hc : 0x2c ∉ keep p) (ht : ∃ r m, t = r :: m ∧ Stops r)
    (hbehind : FollowsBehind L t sc) (hstop : L e t) :
    Follows L (b ++ (p ++ t)) (if Known (keep p) then sc.cons (keep p) else ⟨[keep p], e⟩) := by
  obtain ⟨r, m, rfl, hr⟩ := ht
  have hcut := cutWord_piece (m := m) hb hp hr (fun h => absurd h hne) hc
  split
  · next hk =>
    obtain ⟨y, hy, hlands⟩ := hbehind
    exact ⟨y, hy _ _ hcut hk, hlands⟩
  · next hk => exact ⟨_, cuts_unknown hcut hk, hstop⟩

lemma ListTail.follows_behind (h : ListTail L tail) {f : Further} {fs : List Further}
    {next : Scan × Scan} (hfield : FollowsField L tail f.word fs next.1)
    (hbehind : FollowsBehind L (behindText fs ++ tail) next.2) :
    FollowsBehind L (behindText (f :: fs) ++ tail)
      (if f.pre ≠ [] then next.1 else if f.post ≠ [] then ⟨[], false⟩ else next.2) := by
  by_cases hp : f.pre = []
  · by_cases hpost : f.post = []
    · simpa [behindText, hp, hpost] using hbehind
    · obtain ⟨c, x, hx, hcb, hcc⟩ := field_head f.word fs
      obtain ⟨r, t, hrt⟩ := List.exists_cons_of_ne_nil hpost
      have htext : behindText (f :: fs) ++ tail = f.post ++ c :: (x ++ tail) := by
        simp [behindText, hp, hpost, hx]
      have hrest := h.field f.word fs t fun d hd =>
        f.post_blanks d (hrt ▸ List.mem_cons_of_mem r hd)
      rw [hx] at hrest
      rw [if_neg (not_not.mpr hp), if_pos hpost, htext]
      refine ⟨_, fun _ _ hcut hv => cuts_end hcut hv (eatSpace_found f.post_blanks hcb _) hcc, ?_⟩
      rw [hrt]
      exact hrest
  · have htext : behindText (f :: fs) ++ tail =
        f.pre ++ 0x2c :: (f.post ++ (fieldText f.word fs ++ tail)) := by
      simp [behindText, hp]
    obtain ⟨y, hy, hlands⟩ := hfield f.post f.post_blanks
    rw [if_pos hp, htext]
    exact ⟨y, fun _ _ hcut hv => cuts_comma hcut hv f.pre_blanks rfl hy, hlands⟩

lemma CommaSeen.again {w : Word} {f : Further} {fs : List Further} (h : CommaSeen w f fs) :
    0 < (commaStretch f fs).length % 256 := by
  obtain ⟨hpre, hlen⟩ := h
  rw [stretch_of_pre hpre, List.length_append] at hlen
  omega

lemma ListTail.follows_comma (h : ListTail L tail) {f : Further} {fs : List Further}
    {next : Scan} (hfield : FollowsField L tail f.word fs next)
    (hlen : 0 < (commaStretch f fs).length % 256) :
    Follows L (0x2c :: (f.post ++ (fieldText f.word fs ++ tail))) (next.cons []) := by
  obtain ⟨r, m, hm, hr⟩ := comma_stops h.stops f fs
  have htext : 0x2c :: (f.post ++ (fieldText f.word fs ++ tail)) = commaStretch f fs ++ r :: m := by
    rw [← List.append_assoc, ← List.cons_append, comma_split, List.append_assoc, hm]
  have hcut := cutWord_comma (b := []) (w := []) (m := m) (by simp [Blanks])
    (commaStretch_solid f fs) hr List.not_mem_nil hlen
  have hcut' : cutWord (0x2c :: (f.post ++ (fieldText f.word fs ++ tail))) =
      .ok ([], true, 0x2c :: (f.post ++ (fieldText f.word fs ++ tail))) := by
    rw [htext]
    exact hcut
  obtain ⟨y, hy, hlands⟩ := hfield f.post f.post_blanks
  exact ⟨y, cuts_comma (s := []) hcut' known_nil (by simp [Blanks]) rfl hy, hlands⟩

/-- A comma that is seen: the loop goes on behind it, or at it. -/
lemma ListTail.follows_seen (h : ListTail L tail) {w : Word} {f : Further} {fs : List Further}
    (hseen : CommaSeen w f fs) {next : Scan} (hfield : FollowsField L tail f.word fs next) :
    FollowsField L tail w (f :: fs)
      ((if Known w.text then next else next.cons []).cons w.text) := by
  intro b hb
  have hagain := hseen.again
  obtain ⟨hpre, hlen⟩ := hseen
  obtain ⟨r, m, hm, hr⟩ := comma_stops h.stops f fs
  have hsolid := stretch_solid w (f :: fs)
  rw [stretch_of_pre hpre] at hsolid hlen
  have hcut := cutWord_comma (m := m) hb hsolid hr w.no_comma hlen
  have htext : commaStretch f fs ++ r :: m =
      0x2c :: (f.post ++ (fieldText f.word fs ++ tail)) := by
    rw [← hm, ← List.append_assoc, ← comma_split, List.cons_append, List.append_assoc]
  have hfull : b ++ (w.text ++ commaStretch f fs ++ r :: m) =
      b ++ (fieldText w (f :: fs) ++ tail) := by
    rw [List.append_assoc w.text, htext]
    simp [fieldText, hpre]
  change cutWord (b ++ (w.text ++ commaStretch f fs ++ r :: m)) =
    .ok (w.text, true, commaStretch f fs ++ r :: m) at hcut
  rw [hfull, htext] at hcut
  split
  · next hk =>
    obtain ⟨y, hy, hlands⟩ := hfield f.post f.post_blanks
    exact ⟨y, cuts_comma (s := []) hcut hk (by simp [Blanks]) rfl hy, hlands⟩
  · next hk =>
    obtain ⟨y, hy, hlands⟩ := h.follows_comma hfield hagain
    exact ⟨y, cuts_skip hcut hk hy, hlands⟩

lemma keep_stretch {w : Word} {f : Further} {fs : List Further} (h : ¬ CommaSeen w f fs) :
    keep (stretch w (f :: fs)) = kept w (f :: fs) := by
  unfold keep kept
  by_cases hp : f.pre = []
  · have hle : (stretch w (f :: fs)).length % 256 ≤ w.text.length := by
      by_contra hlt
      exact h ⟨hp, by omega⟩
    generalize (stretch w (f :: fs)).length % 256 = k at hle ⊢
    rw [stretch_of_pre hp, List.take_append_of_le_length hle]
  · rw [stretch_of_pre_ne hp]

lemma kept_no_comma (w : Word) (fs : List Further) : 0x2c ∉ kept w fs := fun h =>
  w.no_comma (List.mem_of_mem_take h)

/-- **The loop follows the scan**, from a word on and behind its stretch. -/
theorem ListTail.follows (h : ListTail L tail) (w : Word) (fs : List Further) :
    FollowsField L tail w fs (scan w fs).1 ∧
      FollowsBehind L (behindText fs ++ tail) (scan w fs).2 := by
  induction fs generalizing w with
  | nil =>
    refine ⟨fun b hb => ?_, h.last⟩
    have hpiece := follows_piece hb w.solid w.ne (kept_no_comma w []) (behind_stops h.stops [])
      h.last (h.behind [])
    -- behind the last word the loop ends whether it is recognised or not
    change Follows L _ (if Known (kept w []) then ⟨[kept w []], true⟩ else ⟨[kept w []], true⟩)
      at hpiece
    rw [ite_self] at hpiece
    exact hpiece
  | cons f fs ih =>
    obtain ⟨hfield, hbehind⟩ := ih f.word
    have hnext := h.follows_behind hfield hbehind
    refine ⟨?_, hnext⟩
    rw [scan]
    split
    · next hseen => exact h.follows_seen hseen hfield
    · next hseen =>
      intro b hb
      have hkeep := keep_stretch hseen
      have hpiece := follows_piece hb (stretch_solid w (f :: fs)) (stretch_ne w (f :: fs))
        (hkeep ▸ kept_no_comma w (f :: fs)) (behind_stops h.stops (f :: fs)) hnext
        (h.behind (f :: fs))
      rw [hkeep, ← List.append_assoc (stretch w (f :: fs)), ← fieldText_split] at hpiece
      exact hpiece

end Places

/-! ### The tokens behind a place of the list -/

lemma tokens_blanks {b m : Mem} {ts : List Str} (hb : Blanks b) (h : Tokens m ts) :
    Tokens (b ++ m) ts := by
  have hjoin : ∀ {b' : Mem}, Blanks b' → Blanks (b ++ b') := fun hb' c hc =>
    (List.mem_append.mp hc).elim (hb c) (hb' c)
  cases h with
  | done hb' hr hbr =>
    rw [← List.append_assoc]
    exact .done (hjoin hb') hr hbr
  | token hb' hp hne hr h =>
    rw [← List.append_assoc]
    exact .token (hjoin hb') hp hne hr h

/-- The text behind the list: blanks, and tokens the first of which begins with no comma. -/
inductive Tail : Mem → List Str → Prop
  | mk {r c : UInt8} {s x : Mem} {ts : List Str} (hs : Blanks (r :: s)) (hcb : isBlank c = false)
      (hcc : c ≠ 0x2c) (h : Tokens (c :: x) ts) : Tail (r :: (s ++ c :: x)) ts

section Landings

variable {tail : Mem} {ts : List Str}

lemma Tail.tokens (h : Tail tail ts) : Tokens tail ts := by
  obtain ⟨hs, -, -, h⟩ := h
  exact tokens_blanks hs h

lemma Tail.stops (h : Tail tail ts) : ∃ r m, tail = r :: m ∧ Stops r := by
  obtain ⟨hs, -, -, -⟩ := h
  exact ⟨_, _, rfl, Or.inr (space_of_blank (hs _ List.mem_cons_self))⟩

/-- The cursor stands in front of the tokens behind the list, or of more than these. -/
def Lands (ts : List Str) (ends : Bool) (y : Mem) : Prop :=
  ∃ extra, Tokens y (extra ++ ts) ∧ (extra = [] ↔ ends = true)

lemma lands_more {b p t : Mem} {e : Bool} (hb : Blanks b) (hp : Solid p)
    (hne : p ≠ []) (ht : ∃ r m, t = r :: m ∧ Stops r) (h : Lands ts e t) :
    Lands ts false (b ++ (p ++ t)) := by
  obtain ⟨extra, htok, -⟩ := h
  obtain ⟨r, m, rfl, hr⟩ := ht
  exact ⟨p :: extra, .token hb hp hne hr htok, by simp⟩

lemma Tail.lands_field (h : Tail tail ts) {fs : List Further}
    (hb : Lands ts (runsOut fs) (behindText fs ++ tail)) (w : Word) {b : Str} (hblank : Blanks b) :
    Lands ts false (b ++ (fieldText w fs ++ tail)) := by
  rw [fieldText_split, List.append_assoc]
  exact lands_more hblank (stretch_solid w fs) (stretch_ne w fs) (behind_stops h.stops fs) hb

/-- **The tokens behind a stretch** are those behind the list exactly if the stretch goes on to its
end. -/
lemma Tail.lands_behind (h : Tail tail ts) (fs : List Further) :
    Lands ts (runsOut fs) (behindText fs ++ tail) := by
  induction fs with
  | nil => exact ⟨[], h.tokens, by simp [runsOut]⟩
  | cons f fs ih =>
    by_cases hp : f.pre = []
    · by_cases hpost : f.post = []
      · simpa [behindText, runsOut, hp, hpost] using ih
      · have hfield := h.lands_field ih f.word f.post_blanks
        simpa [behindText, runsOut, hp, hpost] using hfield
    · have hcomma :
          Lands ts false (f.pre ++ (commaStretch f fs ++ (behindComma f fs ++ tail))) := by
        have hbehind : ∃ e, Lands ts e (behindComma f fs ++ tail) := by
          unfold behindComma
          split
          · exact ⟨_, ih⟩
          · rw [List.append_assoc]
            exact ⟨_, h.lands_field ih f.word f.post_blanks⟩
        obtain ⟨e, he⟩ := hbehind
        exact lands_more f.pre_blanks (commaStretch_solid f fs) (by simp [commaStretch])
          (comma_stops h.stops f fs) he
      have htext : behindText (f :: fs) ++ tail =
          f.pre ++ (commaStretch f fs ++ (behindComma f fs ++ tail)) := by
        rw [← List.append_assoc (commaStretch f fs), ← comma_split]
        simp [behindText, hp]
      have hruns : runsOut (f :: fs) = false := by simp [runsOut, hp]
      rw [htext, hruns]
      exact hcomma

/-- **The places of a list with tokens behind it** land in front of these or of more. -/
lemma Tail.listTail (h : Tail tail ts) : ListTail (Lands ts) tail where
  stops := h.stops
  last := by
    obtain ⟨hs, hcb, hcc, htok⟩ := h
    refine ⟨_, fun _ _ hcut hv => cuts_end hcut hv (eatSpace_found hs hcb _) hcc, [], ?_, by simp⟩
    exact tokens_blanks (fun c hc => hs c (List.mem_cons_of_mem _ hc)) htok
  behind := h.lands_behind
  field w fs _ hb := h.lands_field (h.lands_behind fs) w hb

end Landings

/-! ### Lists of short stretches -/

/-- No stretch of the list that begins with a word is longer than 255 bytes. -/
def Short : Word → List Further → Prop
  | w, [] => (stretch w []).length < 256
  | w, f :: fs => (stretch w (f :: fs)).length < 256 ∧ Short f.word fs

/-- No unrecognised word has blanks in front of the comma behind it. -/
def Through : Word → List Further → Prop
  | _, [] => True
  | w, f :: fs => (¬ Known w.text → f.pre = []) ∧ Through f.word fs

/-- The words, and an empty one behind each unrecognised one that has a comma behind it. -/
def readAll : Word → List Further → List Str
  | w, [] => [w.text]
  | w, f :: fs =>
    if Known w.text then w.text :: readAll f.word fs else w.text :: [] :: readAll f.word fs

lemma word_le_stretch (w : Word) (fs : List Further) :
    w.text.length ≤ (stretch w fs).length := by
  cases fs with
  | nil => exact Nat.le_refl _
  | cons f fs =>
    by_cases hp : f.pre = []
    · simp [stretch_of_pre hp]
    · rw [stretch_of_pre_ne hp]

lemma kept_of_short {w : Word} {fs : List Further} (h : (stretch w fs).length < 256) :
    kept w fs = w.text := by
  rw [kept, Nat.mod_eq_of_lt h]
  exact List.take_of_length_le (word_le_stretch w fs)

lemma comma_of_short {w : Word} {f : Further} {fs : List Further} (hp : f.pre = [])
    (h : (stretch w (f :: fs)).length < 256) : CommaSeen w f fs := by
  have hlen : (stretch w (f :: fs)).length = w.text.length + (commaStretch f fs).length := by
    rw [stretch_of_pre hp, List.length_append]
  have hpos : 0 < (commaStretch f fs).length := by simp [commaStretch]
  exact ⟨hp, by omega⟩

/-- **A list of short stretches** is read through exactly where no unrecognised word has blanks in
front of the comma behind it. -/
theorem scan_of_short {w : Word} {fs : List Further} (h : Short w fs) :
    ((scan w fs).1.ends = true ↔ Through w fs) ∧
      (Through w fs → (scan w fs).1.read = readAll w fs) := by
  induction fs generalizing w with
  | nil =>
    rw [scan, readAll, kept_of_short h]
    simp [Through]
  | cons f fs ih =>
    obtain ⟨hlen, hrest⟩ := h
    obtain ⟨hends, hread⟩ := ih hrest
    rw [scan, readAll, Through]
    by_cases hp : f.pre = []
    · have hseen := comma_of_short hp hlen
      by_cases hk : Known w.text
      · simp only [hseen, hk, ↓reduceIte, Scan.cons_ends, Scan.cons_read, not_true_eq_false,
          false_imp_iff, true_and]
        exact ⟨hends, fun ht => by rw [hread ht]⟩
      · simp only [hseen, hk, ↓reduceIte, Scan.cons_ends, Scan.cons_read, not_false_eq_true, hp,
          true_imp_iff, true_and]
        exact ⟨hends, fun ht => by rw [hread ht]⟩
    · have hseen : ¬ CommaSeen w f fs := fun hc => hp hc.1
      by_cases hk : Known w.text
      · simp only [hseen, kept_of_short hlen, hk, hp, ↓reduceIte, Scan.cons_ends, Scan.cons_read,
          ne_eq, not_false_eq_true, not_true_eq_false, false_imp_iff, true_and]
        exact ⟨hends, fun ht => by rw [hread ht]⟩
      · simp [hseen, kept_of_short hlen, hk, hp, runsOut]

/-- A list of recognised words is read as it stands. -/
lemma read_of_known {w : Word} {fs : List Further}
    (h : ∀ u ∈ w.text :: fs.map (·.word.text), Known u) :
    Through w fs ∧ readAll w fs = w.text :: fs.map (·.word.text) := by
  induction fs generalizing w with
  | nil => exact ⟨trivial, rfl⟩
  | cons f fs ih =>
    obtain ⟨hw, hrest⟩ := List.forall_mem_cons.mp h
    obtain ⟨ht, hr⟩ := ih hrest
    refine ⟨⟨fun hn => absurd hw hn, ht⟩, ?_⟩
    rw [readAll, if_pos hw, hr]
    rfl

/-! ### The hook -/

/-- **The list of words is taken apart**: the loop cuts the words of the scan, and the tokens it
leaves are those behind the list exactly if it ends there. -/
theorem cuts_of_scan {b : Str} (hb : Blanks b) (w : Word) (fs : List Further) {tail : Mem}
    {ts : List Str} (h : Tail tail ts) :
    ∃ extra y, Cuts (b ++ (fieldText w fs ++ tail)) (scan w fs).1.read y ∧
      Tokens y (extra ++ ts) ∧ (extra = [] ↔ (scan w fs).1.ends = true) := by
  obtain ⟨y, hy, extra, htok, hiff⟩ := (h.listTail.follows w fs).1 b hb
  exact ⟨extra, y, hy, htok, hiff⟩

end Gpiod.TabWords
