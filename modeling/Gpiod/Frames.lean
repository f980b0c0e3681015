import Mathlib.Data.List.Basic

/-!
Lists cut at marks, and streams of frames between a start and a stop mark.

A mark that begins with a symbol is found right behind a text without that symbol, so frames
around such texts can be joined and taken apart again.
-/

namespace Gpiod.Frames

variable {α : Type*} (start stop : List α)

def frame (body : List α) : List α := start ++ (body ++ stop)

def frames (bodies : List (List α)) : List α := bodies.flatMap (frame start stop)

@[simp] lemma frames_nil : frames start stop [] = [] := rfl
@[simp] lemma frames_cons (body : List α) (bodies : List (List α)) :
    frames start stop (body :: bodies) = frame start stop body ++ frames start stop bodies := rfl

/-! ### Cutting -/

variable [DecidableEq α]

/-- The text in front of the first occurrence of a mark, and the text behind it. -/
def cut (mark : List α) : List α → Option (List α × List α)
  | [] => none
  | a :: l =>
    if mark.isPrefixOf (a :: l) then some ([], (a :: l).drop mark.length)
    else (cut mark l).map fun p => (a :: p.1, p.2)

lemma cut_append {c : α} {mark w : List α} (hw : c ∉ w) (l : List α) :
    cut (c :: mark) (w ++ (c :: mark ++ l)) = some (w, l) := by
  induction w with
  | nil =>
    have hp : (c :: mark).isPrefixOf (c :: mark ++ l) = true :=
      List.isPrefixOf_iff_prefix.mpr (List.prefix_append _ _)
    rw [List.nil_append, List.cons_append, cut]
    rw [List.cons_append] at hp
    rw [if_pos hp]
    simp
  | cons a w ih =>
    simp only [List.mem_cons, not_or] at hw
    have hp : (c :: mark).isPrefixOf (a :: (w ++ (c :: mark ++ l))) = false := by
      simp [List.isPrefixOf, hw.1]
    rw [List.cons_append, cut, hp, ih hw.2]
    rfl

/-! ### Taking a stream apart -/

/-- The bodies of the frames that a stream of at most `n` symbols consists of. -/
def unframe : ℕ → List α → Option (List (List α))
  | _, [] => some []
  | 0, _ :: _ => none
  | n + 1, a :: l =>
    if start.isPrefixOf (a :: l) then do
      let (body, rest) ← cut stop ((a :: l).drop start.length)
      let bodies ← unframe n rest
      return body :: bodies
    else none

/-- The frames of a stream, cut at the marks. -/
def split (l : List α) : Option (List (List α)) :=
  (unframe start stop l.length l).map fun bodies => bodies.map (frame start stop)

variable {start stop}

/-- The first symbol of the stop mark is in no body. -/
def Clear (c : α) (bodies : List (List α)) : Prop := ∀ body ∈ bodies, c ∉ body

lemma unframe_cons {c : α} (hstart : start ≠ []) {body : List α} (hc : c ∉ body) (n : ℕ)
    (l : List α) : unframe start (c :: stop) (n + 1) (frame start (c :: stop) body ++ l) =
      (unframe start (c :: stop) n l).map (body :: ·) := by
  obtain ⟨a, s, rfl⟩ := List.exists_cons_of_ne_nil hstart
  have hp : (a :: s).isPrefixOf (a :: (s ++ (body ++ (c :: stop ++ l)))) = true :=
    List.isPrefixOf_iff_prefix.mpr (List.prefix_append (a :: s) _)
  have hcut : cut (c :: stop) ((a :: (s ++ (body ++ (c :: stop ++ l)))).drop (a :: s).length) =
      some (body, l) := by
    rw [← List.cons_append, List.drop_left]
    exact cut_append hc l
  simp only [frame, List.cons_append, List.append_assoc] at hp hcut ⊢
  rw [unframe, if_pos hp, hcut]
  cases h : unframe (a :: s) (c :: stop) n l <;> simp [h]

/-- **Taking a stream apart** gives back the bodies it was joined from. -/
theorem unframe_frames {c : α} (hstart : start ≠ []) {bodies : List (List α)}
    (hc : Clear c bodies) {n : ℕ} (hn : (frames start (c :: stop) bodies).length ≤ n) :
    unframe start (c :: stop) n (frames start (c :: stop) bodies) = some bodies := by
  induction bodies generalizing n with
  | nil => cases n <;> rfl
  | cons body bodies ih =>
    have hpos : 0 < start.length := List.length_pos_iff.mpr hstart
    rw [frames_cons] at hn ⊢
    simp only [frame, List.length_append, List.length_cons] at hn
    obtain ⟨n, rfl⟩ : ∃ k, n = k + 1 := ⟨n - 1, by omega⟩
    rw [unframe_cons hstart (hc body (by simp)),
      ih (fun b hb => hc b (List.mem_cons_of_mem _ hb)) (by omega)]
    rfl

theorem split_frames {c : α} (hstart : start ≠ []) {bodies : List (List α)}
    (hc : Clear c bodies) : split start (c :: stop) (frames start (c :: stop) bodies) =
      some (bodies.map (frame start (c :: stop))) := by
  rw [split, unframe_frames hstart hc (Nat.le_refl _)]
  rfl

end Gpiod.Frames
