import Gpiod.TabWords

/-!
What the modifier loop sees of a list of words, stretch by stretch.

The list falls into stretches free of blanks. Of each stretch the loop sees as many bytes as the
eight-bit length says: the words in them whose comma lies in them as well, and what is left of the
word after these. It passes on to the next stretch where the last word seen lets it, and it reads
the list to its end exactly if it passes every stretch.
-/

namespace Gpiod.TabVisible

open Gpiod.Pin Gpiod.TabField Gpiod.TabWords

/-- A word as it is cut, and whether the comma behind it is seen. -/
abbrev Cut := Str × Bool

/-- The words in the first `k` bytes of the stretch that begins with a word. -/
def visible : ℕ → Word → List Further → List Cut
  | k, w, [] => [(w.text.take k, false)]
  | k, w, f :: fs =>
    if f.pre = [] ∧ w.text.length < k then
      (w.text, true) :: if f.post = [] then visible (k - (w.text.length + 1)) f.word fs else []
    else [(w.text.take k, false)]

/-- The words the loop sees of the stretch that begins with a word. -/
def seen (w : Word) (fs : List Further) : List Cut := visible ((stretch w fs).length % 256) w fs

/-- The words that stretches behind the first one begin with. -/
def later : List Further → List (Word × List Further)
  | [] => []
  | f :: fs => if f.pre = [] ∧ f.post = [] then later fs else (f.word, fs) :: later fs

/-- The words that the stretches of a list begin with, each with what stands behind it. -/
def heads (w : Word) (fs : List Further) : List (Word × List Further) := (w, fs) :: later fs

/-- What stands behind a stretch: nothing, blanks and a comma, or the blanks behind its own last
comma. -/
inductive Gap
  | last | blanks | comma
  deriving DecidableEq, Repr

def gap : List Further → Gap
  | [] => .last
  | f :: fs => if f.pre ≠ [] then .blanks else if f.post ≠ [] then .comma else gap fs

/-- The loop passes on behind the stretch: the word it has seen last is recognised and looks for
the comma, or its own comma is seen. -/
def Passed (w : Word) (fs : List Further) : Prop :=
  match gap fs with
  | .last => True
  | .blanks => ∀ u ∈ (seen w fs).getLast?, Known u.1
  | .comma => (stretch w fs).length < 256

instance (w : Word) (fs : List Further) : Decidable (Passed w fs) := by
  unfold Passed
  cases gap fs <;> infer_instance

/-- The words read of a word seen: an empty one comes behind an unrecognised word whose comma is
seen. -/
def Cut.read (u : Cut) : List Str := if u.2 ∧ ¬ Known u.1 then [u.1, []] else [u.1]

/-- The words seen of the whole list. -/
def seenAll (w : Word) (fs : List Further) : List Cut :=
  (heads w fs).flatMap fun h => seen h.1 h.2

/-! ### One stretch -/

lemma visible_ne (k : ℕ) (w : Word) (fs : List Further) : visible k w fs ≠ [] := by
  cases fs with
  | nil => exact List.cons_ne_nil _ _
  | cons f fs =>
    rw [visible]
    split <;> exact List.cons_ne_nil _ _

lemma seen_cut {w : Word} {f : Further} {fs : List Further} (h : ¬ CommaSeen w f fs) :
    seen w (f :: fs) = [(kept w (f :: fs), false)] := by
  have hno : ¬ (f.pre = [] ∧ w.text.length < (stretch w (f :: fs)).length % 256) := h
  rw [seen, visible, if_neg hno]
  rfl

lemma seen_comma {w : Word} {f : Further} {fs : List Further} (h : CommaSeen w f fs) :
    seen w (f :: fs) = (w.text, true) :: if f.post = [] then seen f.word fs else [] := by
  obtain ⟨hpre, hlen⟩ := h
  rw [seen, visible, if_pos ⟨hpre, hlen⟩]
  split
  · next hpost =>
    have hsplit : (stretch w (f :: fs)).length =
        w.text.length + 1 + (stretch f.word fs).length := by
      simp only [stretch_of_pre hpre, commaStretch, hpost, ↓reduceIte, List.length_append,
        List.length_cons]
      omega
    have hk : (stretch w (f :: fs)).length % 256 - (w.text.length + 1) =
        (stretch f.word fs).length % 256 := by omega
    rw [hk, seen]
  · rfl

/-! ### The whole list -/

lemma passed_seen {w : Word} {f : Further} {fs : List Further} (h : CommaSeen w f fs) :
    (∀ q ∈ heads w (f :: fs), Passed q.1 q.2) ↔ ∀ q ∈ heads f.word fs, Passed q.1 q.2 := by
  have hseen := seen_comma h
  obtain ⟨hpre, hlen⟩ := h
  by_cases hpost : f.post = []
  · have hsplit : (stretch w (f :: fs)).length =
        w.text.length + 1 + (stretch f.word fs).length := by
      simp only [stretch_of_pre hpre, commaStretch, hpost, ↓reduceIte, List.length_append,
        List.length_cons]
      omega
    have hgap : gap (f :: fs) = gap fs := by simp [gap, hpre, hpost]
    have hfirst : Passed w (f :: fs) ↔ Passed f.word fs := by
      have hlast : ((w.text, true) :: seen f.word fs).getLast? = (seen f.word fs).getLast? :=
        List.getLast?_cons_of_ne_nil (visible_ne _ _ _)
      unfold Passed
      rw [hgap, hseen, if_pos hpost, hlast]
      cases gap fs with
      | last => rfl
      | blanks => rfl
      | comma =>
        show _ < 256 ↔ _ < 256
        omega
    simp only [heads, later, hpre, hpost, and_self, ↓reduceIte, List.forall_mem_cons, hfirst]
  · have hgap : gap (f :: fs) = .comma := by simp [gap, hpre, hpost]
    have hstretch : (stretch w (f :: fs)).length = w.text.length + 1 := by
      simp [stretch_of_pre hpre, commaStretch, hpost]
    have hfirst : Passed w (f :: fs) := by
      unfold Passed
      rw [hgap]
      show _ < 256
      omega
    simp only [heads, later, hpost, and_false, ↓reduceIte, List.forall_mem_cons (a := (w, f :: fs)),
      hfirst, true_and]

lemma passed_cut {w : Word} {f : Further} {fs : List Further} (h : ¬ CommaSeen w f fs) :
    Passed w (f :: fs) ↔
      gap (f :: fs) = .last ∨ gap (f :: fs) = .blanks ∧ Known (kept w (f :: fs)) := by
  unfold Passed
  rw [seen_cut h]
  cases hg : gap (f :: fs) with
  | last => simp
  | blanks => simp
  | comma =>
    have hpre : f.pre = [] := by
      by_contra hne
      simp [gap, hne] at hg
    simp only [reduceCtorEq, false_and, or_self, iff_false]
    exact fun hlt => h (comma_of_short hpre hlt)

lemma runsOut_iff (fs : List Further) : runsOut fs = true ↔ gap fs = .last := by
  induction fs with
  | nil => simp [runsOut, gap]
  | cons f fs ih =>
    by_cases hpre : f.pre = []
    · by_cases hpost : f.post = [] <;> simp [runsOut, gap, hpre, hpost, ih]
    · simp [runsOut, gap, hpre]

lemma later_of_last {fs : List Further} (h : gap fs = .last) : later fs = [] := by
  induction fs with
  | nil => rfl
  | cons f fs ih =>
    by_cases hpre : f.pre = []
    · by_cases hpost : f.post = []
      · simp only [gap, hpre, hpost, ne_eq, not_true_eq_false, ↓reduceIte] at h
        simpa [later, hpre, hpost] using ih h
      · simp [gap, hpre, hpost] at h
    · simp [gap, hpre] at h

/-- **The loop reads the list to its end** exactly if it passes every stretch; behind a stretch in
which a recognised word was cut, if it does not end with a comma and the later ones are passed. -/
lemma scan_ends_iff (w : Word) (fs : List Further) :
    ((scan w fs).1.ends = true ↔ ∀ q ∈ heads w fs, Passed q.1 q.2) ∧
      ((scan w fs).2.ends = true ↔ gap fs ≠ .comma ∧ ∀ q ∈ later fs, Passed q.1 q.2) := by
  induction fs generalizing w with
  | nil => simp [scan, heads, later, gap, Passed]
  | cons f fs ih =>
    obtain ⟨ih1, ih2⟩ := ih f.word
    have hbehind : (scan w (f :: fs)).2.ends = true ↔
        gap (f :: fs) ≠ .comma ∧ ∀ q ∈ later (f :: fs), Passed q.1 q.2 := by
      by_cases hpre : f.pre = []
      · by_cases hpost : f.post = []
        · simpa [scan, gap, later, hpre, hpost] using ih2
        · simp [scan, gap, hpre, hpost]
      · simpa [scan, gap, later, heads, hpre] using ih1
    refine ⟨?_, hbehind⟩
    by_cases hc : CommaSeen w f fs
    · rw [passed_seen hc, ← ih1]
      by_cases hk : Known w.text <;> simp [scan, hc, hk]
    · rw [heads, List.forall_mem_cons, passed_cut hc]
      by_cases hk : Known (kept w (f :: fs))
      · rw [scan_cut hc hk, Scan.cons_ends, hbehind]
        cases gap (f :: fs) <;> simp [hk]
      · have hends : (scan w (f :: fs)).1.ends = runsOut (f :: fs) := by simp [scan, hc, hk]
        rw [hends, runsOut_iff]
        simp only [hk, and_false, or_false]
        exact ⟨fun hl => ⟨hl, by simp [later_of_last hl]⟩, And.left⟩

/-- **What it reads then** is what it sees. -/
lemma scan_read_of_ends (w : Word) (fs : List Further) :
    ((scan w fs).1.ends = true → (scan w fs).1.read = (seenAll w fs).flatMap Cut.read) ∧
      ((scan w fs).2.ends = true → (scan w fs).2.read =
        ((later fs).flatMap fun q => seen q.1 q.2).flatMap Cut.read) := by
  induction fs generalizing w with
  | nil => simp [scan, seenAll, heads, later, seen, visible, kept, Cut.read]
  | cons f fs ih =>
    obtain ⟨ih1, ih2⟩ := ih f.word
    have hbehind : (scan w (f :: fs)).2.ends = true → (scan w (f :: fs)).2.read =
        ((later (f :: fs)).flatMap fun q => seen q.1 q.2).flatMap Cut.read := by
      by_cases hpre : f.pre = []
      · by_cases hpost : f.post = []
        · simpa [scan, later, hpre, hpost] using ih2
        · simp [scan, hpre, hpost]
      · simpa [scan, later, seenAll, heads, hpre] using ih1
    refine ⟨fun hends => ?_, hbehind⟩
    by_cases hc : CommaSeen w f fs
    · have hrest : (seenAll w (f :: fs)).flatMap Cut.read =
          Cut.read (w.text, true) ++ (seenAll f.word fs).flatMap Cut.read := by
        have hpre := hc.1
        by_cases hpost : f.post = [] <;>
          simp [seenAll, heads, later, seen_comma hc, hpre, hpost]
      rw [hrest]
      by_cases hk : Known w.text
      · simp only [scan, hc, hk, ↓reduceIte, Scan.cons_ends, Scan.cons_read] at hends ⊢
        rw [ih1 hends]
        simp [Cut.read, hk]
      · simp only [scan, hc, hk, ↓reduceIte, Scan.cons_ends, Scan.cons_read] at hends ⊢
        rw [ih1 hends]
        simp [Cut.read, hk]
    · have hfirst : (seenAll w (f :: fs)).flatMap Cut.read = kept w (f :: fs) ::
          ((later (f :: fs)).flatMap fun q => seen q.1 q.2).flatMap Cut.read := by
        simp [seenAll, heads, seen_cut hc, Cut.read]
      rw [hfirst]
      by_cases hk : Known (kept w (f :: fs))
      · rw [scan_cut hc hk] at hends ⊢
        rw [Scan.cons_read, hbehind hends]
      · have hruns : runsOut (f :: fs) = true := by simpa [scan, hc, hk] using hends
        rw [later_of_last ((runsOut_iff _).mp hruns)]
        simp [scan, hc, hk]

end Gpiod.TabVisible
