import Gpiod.Frames

/-!
A reader of frames that begins anew at every start symbol.

A frame that was cut off leaves a text without its stop mark. Where the start symbol is in no body
and not in the stop mark, the next frame ends that text, and every frame that is whole is read.
-/

namespace Gpiod.Resync

open Gpiod.Frames

variable {α : Type*} [DecidableEq α]

/-- The text since the last start symbol, if its stop mark has not come, and the bodies read. -/
structure Scan (α : Type*) where
  inside : Option (List α)
  bodies : List (List α)

variable (start : α) (stop : List α)

def read (s : Scan α) (a : α) : Scan α :=
  if a = start then ⟨some [], s.bodies⟩
  else
    match s.inside with
    | none => s
    | some w =>
      if stop.isSuffixOf (w ++ [a]) then
        ⟨none, s.bodies ++ [(w ++ [a]).take ((w ++ [a]).length - stop.length)]⟩
      else ⟨some (w ++ [a]), s.bodies⟩

def scan (s : Scan α) (l : List α) : Scan α := l.foldl (read start stop) s

/-- The bodies of the frames read. -/
def resync (l : List α) : List (List α) := (scan start stop ⟨none, []⟩ l).bodies

structure Piece (α : Type*) where
  body : List α
  text : List α

/-- The frame is there to its end. -/
def Piece.whole (p : Piece α) : Bool := p.text == frame [start] stop p.body

@[simp] lemma scan_nil (s : Scan α) : scan start stop s [] = s := rfl
@[simp] lemma scan_cons (s : Scan α) (a : α) (l : List α) :
    scan start stop s (a :: l) = scan start stop (read start stop s a) l := rfl
lemma scan_append (s : Scan α) (l l' : List α) :
    scan start stop s (l ++ l') = scan start stop (scan start stop s l) l' := List.foldl_append

variable {start stop} {c : α} {t body w u : List α}

omit [DecidableEq α] in
lemma not_suffix_of_prefix (hc : c ∉ body) (hw : w <+: body ++ c :: t)
    (hlt : w.length < (body ++ c :: t).length) : ¬ (c :: t) <:+ w := by
  rintro ⟨y, rfl⟩
  rw [List.length_append, List.length_append] at hlt
  have hy : y.length < body.length := by omega
  obtain ⟨r, hr⟩ := hw
  have hmid : (y ++ c :: t ++ r)[y.length]? = some c := by simp
  rw [hr, List.getElem?_append_left hy] at hmid
  exact hc (List.mem_of_getElem? hmid)

/-- **A text without an end** is only kept. -/
lemma scan_open {bodies : List (List α)} (hstart : start ∉ u)
    (hopen : ∀ v, v <+: u → v ≠ [] → ¬ stop <:+ (w ++ v)) :
    scan start stop ⟨some w, bodies⟩ u = ⟨some (w ++ u), bodies⟩ := by
  induction u generalizing w with
  | nil => rw [scan_nil, List.append_nil]
  | cons a u ih =>
    rw [List.mem_cons, not_or] at hstart
    have hno : stop.isSuffixOf (w ++ [a]) = false := by
      rw [Bool.eq_false_iff, Ne, List.isSuffixOf_iff_suffix]
      exact hopen [a] (List.prefix_append [a] u) (List.cons_ne_nil a [])
    have hread : read start stop ⟨some w, bodies⟩ a = ⟨some (w ++ [a]), bodies⟩ := by
      simp only [read, if_neg (Ne.symm hstart.1), hno, Bool.false_eq_true, if_false]
    rw [scan_cons, hread, ih hstart.2 fun v hv hne => ?_, List.append_assoc]
    · rfl
    · have := hopen (a :: v) ((List.prefix_cons_inj a).mpr hv) (List.cons_ne_nil a v)
      rwa [← List.append_cons]

/-- The start symbol is in no frame but at its beginning, and the stop mark only at its end. -/
structure Marked (start c : α) (t body : List α) : Prop where
  start_body : start ∉ body
  start_stop : start ∉ c :: t
  stop_body : c ∉ body

/-- **A frame** is read whatever came before it. -/
lemma scan_frame (hm : Marked start c t body) (s : Scan α) :
    scan start (c :: t) s (frame [start] (c :: t) body) = ⟨none, s.bodies ++ [body]⟩ := by
  obtain ⟨v, a, hva⟩ : ∃ v a, c :: t = v ++ [a] :=
    ⟨_, _, (List.dropLast_append_getLast (List.cons_ne_nil c t)).symm⟩
  have hstart : start ∉ body ++ v := fun hin => by
    rcases List.mem_append.mp hin with hin | hin
    · exact hm.start_body hin
    · exact hm.start_stop (hva ▸ List.mem_append_left _ hin)
  have ha : a ≠ start := fun he => hm.start_stop (hva ▸ by simp [he])
  have hopen : scan start (c :: t) ⟨some [], s.bodies⟩ (body ++ v) =
      ⟨some ([] ++ (body ++ v)), s.bodies⟩ := scan_open hstart fun x hx _ => by
      refine not_suffix_of_prefix hm.stop_body ?_ ?_
      · rw [hva, ← List.append_assoc]
        exact hx.trans (List.prefix_append _ _)
      · have hle := hx.length_le
        have hlen := congrArg List.length hva
        simp only [List.length_append, List.length_singleton, List.nil_append] at hle hlen ⊢
        omega
  have hsplit : frame [start] (c :: t) body = start :: (body ++ v ++ [a]) := by
    rw [frame, hva, List.append_assoc]
    rfl
  have hfirst : read start (c :: t) s start = ⟨some [], s.bodies⟩ := if_pos rfl
  have hend : (c :: t).isSuffixOf (body ++ v ++ [a]) = true := by
    rw [List.isSuffixOf_iff_suffix, List.append_assoc, ← hva]
    exact List.suffix_append _ _
  have htake : (body ++ v ++ [a]).take ((body ++ v ++ [a]).length - (c :: t).length) = body := by
    rw [List.append_assoc, ← hva, List.length_append, Nat.add_sub_cancel, List.take_left]
  rw [hsplit, scan_cons, hfirst, scan_append, hopen, List.nil_append, scan_cons, scan_nil, read,
    if_neg ha]
  simp only [hend, if_true, htake]

/-- **A frame that was cut off** is not read. -/
lemma scan_cut (hm : Marked start c t body) (hu : u <+: frame [start] (c :: t) body)
    (hne : u ≠ frame [start] (c :: t) body) (s : Scan α) :
    (scan start (c :: t) s u).bodies = s.bodies := by
  cases u with
  | nil => rfl
  | cons a u =>
    obtain ⟨rfl, hu'⟩ := List.cons_prefix_cons.mp hu
    have hlt : u.length < (body ++ c :: t).length := by
      refine Nat.lt_of_le_of_ne hu'.length_le fun hlen => hne ?_
      have heq : u = body ++ c :: t := hu'.eq_of_length hlen
      rw [heq]
      rfl
    have hstart : a ∉ u := fun hin => by
      have hin' : a ∈ body ++ c :: t := hu'.subset hin
      rcases List.mem_append.mp hin' with hin' | hin'
      · exact hm.start_body hin'
      · exact hm.start_stop hin'
    have hopen : scan a (c :: t) ⟨some [], s.bodies⟩ u = ⟨some ([] ++ u), s.bodies⟩ :=
      scan_open hstart fun x hx _ => not_suffix_of_prefix hm.stop_body (hx.trans hu')
        (Nat.lt_of_le_of_lt hx.length_le hlt)
    have hfirst : read a (c :: t) s a = ⟨some [], s.bodies⟩ := if_pos rfl
    rw [scan_cons, hfirst, hopen]

lemma scan_pieces {ps : List (Piece α)} (hm : ∀ p ∈ ps, Marked start c t p.body)
    (hp : ∀ p ∈ ps, p.text <+: frame [start] (c :: t) p.body) (s : Scan α) :
    (scan start (c :: t) s (ps.flatMap Piece.text)).bodies =
      s.bodies ++ (ps.filter (Piece.whole start (c :: t))).map Piece.body := by
  induction ps generalizing s with
  | nil => simp
  | cons p ps ih =>
    obtain ⟨hmp, hmps⟩ := List.forall_mem_cons.mp hm
    obtain ⟨hpp, hpps⟩ := List.forall_mem_cons.mp hp
    rw [List.flatMap_cons, scan_append, ih hmps hpps]
    by_cases hw : p.text = frame [start] (c :: t) p.body
    · have hwhole : p.whole start (c :: t) = true := beq_iff_eq.mpr hw
      rw [hw, scan_frame hmp, List.filter_cons_of_pos hwhole]
      simp
    · have hcut : p.whole start (c :: t) = false := beq_eq_false_iff_ne.mpr hw
      rw [scan_cut hmp hpp hw, List.filter_cons_of_neg (by simp [hcut])]

/-- **Resynchronisation**: of frames that may each be cut off, the bodies of those that are whole
are read, in order. -/
theorem resync_pieces {ps : List (Piece α)} (hm : ∀ p ∈ ps, Marked start c t p.body)
    (hp : ∀ p ∈ ps, p.text <+: frame [start] (c :: t) p.body) :
    resync start (c :: t) (ps.flatMap Piece.text) =
      (ps.filter (Piece.whole start (c :: t))).map Piece.body := by
  rw [resync, scan_pieces hm hp, List.nil_append]

end Gpiod.Resync
