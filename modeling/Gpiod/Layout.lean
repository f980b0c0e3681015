import Gpiod.Fidelity
import Gpiod.TabWords

/-!
Tab lines by their contents and their layout.

The contents of a line are a label, a list of words, a path and arguments; its layout are the
blanks around them and the end of the line. Where the words are names of modifiers and no
stretch of their list is too long, the hook that `loadTab` builds is a function of the contents.
-/

namespace Gpiod.Layout

open Gpiod.Pin Gpiod.TabScan Gpiod.TabField Gpiod.TabArgs Gpiod.TabWords Gpiod.Mask
open Gpiod.Fidelity (Sep White spacedText tail_spaced)
open Gpiod.TabBuffer (loadLine_eq)

structure Piece where
  text : Str
  solid : Solid text
  ne : text ≠ []

inductive Ending
  | lf | crlf | eof
  deriving DecidableEq, Repr

def Ending.text : Ending → Str
  | .lf => [0x0a]
  | .crlf => [0x0d, 0x0a]
  | .eof => []

def piecesText : List (Sep × Piece) → Str
  | [] => []
  | (sep, p) :: args => sep.text ++ (p.text ++ piecesText args)

/-- A tab line with a list of words for its modifiers. -/
structure Line where
  lead : Str
  label : Piece
  sep : Sep
  first : Word
  further : List Further
  sep' : Sep
  path : Piece
  args : List (Sep × Piece)
  trail : Str
  ending : Ending
  lead_blanks : Blanks lead
  path_ne_comma : path.text.head? ≠ some 0x2c
  trail_blanks : Blanks trail

namespace Line

/-- What stands behind the list. -/
def tail (l : Line) : Str :=
  l.sep'.text ++ (l.path.text ++ (piecesText l.args ++ (l.trail ++ l.ending.text)))

def text (l : Line) : Str :=
  l.lead ++ (l.label.text ++ (l.sep.text ++ (fieldText l.first l.further ++ l.tail)))

def words (l : Line) : List Str := l.first.text :: l.further.map (·.word.text)

def tokens (l : Line) : List Str := l.path.text :: l.args.map (·.2.text)

end Line

/-- The list of pins with a hook added for a label. -/
def attachHook (gp_list : List GpioPin) (label : Str) (hook : GpiodHook) : List GpioPin :=
  match findPinByLabel gp_list (keep label) with
  | none => gp_list
  | some k => gp_list.modify k (·.addHook hook)

/-! ### The fields of a line -/

lemma white_trail (l : Line) : White (l.trail ++ l.ending.text) := by
  have hending : ∀ c ∈ l.ending.text, isSpace c = true := by
    cases l.ending <;> simp [Ending.text, isSpace]
  exact fun c hc => (List.mem_append.mp hc).elim
    (fun hc => space_of_blank (l.trail_blanks c hc)) (hending c)

lemma piecesText_eq (args : List (Sep × Piece)) :
    piecesText args = spacedText (args.map fun a => (a.1, a.2.text)) := by
  induction args with
  | nil => rfl
  | cons a args ih => rw [piecesText, ih]; rfl

lemma Line.tail_tokens (l : Line) (stale : Mem) : Tail (l.tail ++ 0 :: stale) l.tokens := by
  have hsolid : ∀ q ∈ l.args.map fun a => (a.1, a.2.text), Solid q.2 ∧ q.2 ≠ [] := by
    intro q hq
    obtain ⟨a, -, rfl⟩ := List.mem_map.mp hq
    exact ⟨a.2.solid, a.2.ne⟩
  have htail := tail_spaced (white_trail l) stale l.sep' l.path.solid l.path.ne l.path_ne_comma
    hsolid
  rw [Line.tail, piecesText_eq, Line.tokens]
  simpa [Function.comp_def] using htail

lemma Line.token_text (l : Line) : firstToken l.text = l.label.text ∧
    afterToken l.text = l.sep.text ++ (fieldText l.first l.further ++ l.tail) := by
  obtain ⟨r, x, hrx, hr⟩ := stops_of_blanks l.sep.blanks l.sep.ne
    (fieldText l.first l.further ++ l.tail)
  rw [Line.text, hrx]
  exact firstToken_piece l.lead_blanks l.label.solid l.label.ne hr x

/-- **The hook of a line**: flags of the words read, and the path and the arguments, with
tokens of the list in front of these unless the loop ends behind the list. -/
theorem tabHook_line (l : Line) (stale : Mem) : ∃ extra,
    (∀ hook, TabBuffer.tabHook (afterToken l.text ++ 0 :: stale) = .ok hook ↔
      TabBuffer.Short (scan l.first l.further).1.read (extra ++ l.tokens) ∧
        hook = hookOf (join wordFlags 0 (scan l.first l.further).1.read) (extra ++ l.tokens)) ∧
      (extra = [] ↔ (scan l.first l.further).1.ends = true) := by
  obtain ⟨extra, y, hcuts, htok, hiff⟩ :=
    cuts_of_scan l.sep.blanks l.first l.further (l.tail_tokens stale)
  have hmem : afterToken l.text ++ 0 :: stale =
      l.sep.text ++ (fieldText l.first l.further ++ (l.tail ++ 0 :: stale)) := by
    rw [l.token_text.2]
    simp
  rw [hmem]
  exact ⟨extra, fun hook => TabBuffer.tabHook_iff hcuts htok, hiff⟩

/-- A line whose label fits, and of which a hook is made, is loaded as that. -/
lemma loadLine_hook {l : Line} {stale : Mem} {hook : GpiodHook}
    (hlabel : l.label.text.length % 256 < gpiodTabMaxArgumentLength)
    (h : TabBuffer.tabHook (afterToken l.text ++ 0 :: stale) = .ok hook)
    (gp_list : List GpioPin) : TabBuffer.loadLine gp_list (l.text ++ 0 :: stale) =
      .ok (attachHook gp_list l.label.text hook) := by
  refine loadLine_eq.mpr ?_
  rw [l.token_text.1, attachHook]
  refine ⟨hlabel, ?_⟩
  cases findPinByLabel gp_list (keep l.label.text) with
  | none => rfl
  | some k => exact ⟨hook, h, rfl⟩

/-! ### Lists of names -/

def IsName (w : Str) : Prop := w ∈ gpiodHookModifies

instance (w : Str) : Decidable (IsName w) := inferInstanceAs (Decidable (_ ∈ _))

lemma IsName.known {w : Str} (h : IsName w) : Known w := by
  simp only [IsName, gpiodHookModifies, List.map_cons, List.map_nil, List.mem_cons,
    List.not_mem_nil, or_false] at h
  rcases h with rfl | rfl | rfl | rfl | rfl <;> decide

lemma IsName.short {w : Str} (h : IsName w) : w.length < gpiodTabMaxArgumentLength := by
  simp only [IsName, gpiodHookModifies, List.map_cons, List.map_nil, List.mem_cons,
    List.not_mem_nil, or_false] at h
  rcases h with rfl | rfl | rfl | rfl | rfl <;> decide

def Line.hook (l : Line) : GpiodHook := hookOf (join tabParseMod 0 l.words) l.tokens

/-- The token buffer has room for what the eight-bit length keeps of the label and of the tokens of
the line. -/
structure Line.Fits (l : Line) : Prop where
  label : l.label.text.length % 256 < gpiodTabMaxArgumentLength
  tokens : ∀ t ∈ l.tokens, t.length % 256 < gpiodTabMaxArgumentLength

/-- **The hook of a line of names** with short stretches is that of its contents. -/
lemma loadLine_names (l : Line) (hn : ∀ w ∈ l.words, IsName w) (hs : Short l.first l.further)
    (hf : l.Fits) (gp_list : List GpioPin) (stale : Mem) :
    TabBuffer.loadLine gp_list (l.text ++ 0 :: stale) =
      .ok (attachHook gp_list l.label.text l.hook) := by
  obtain ⟨extra, hline, hiff⟩ := tabHook_line l stale
  obtain ⟨hends, hread⟩ := scan_of_short hs
  have hknown : ∀ w ∈ l.words, Known w := fun w hw => (hn w hw).known
  obtain ⟨ht, hall⟩ := read_of_known hknown
  have hwords : (scan l.first l.further).1.read = l.words := (hread ht).trans hall
  refine loadLine_hook hf.label ((hline l.hook).mpr ?_) gp_list
  rw [hiff.mpr (hends.mpr ht), hwords, List.nil_append, join_known hknown]
  exact ⟨⟨fun w hw => (hn w hw).short, hf.tokens⟩, rfl⟩

/-! ### Files -/

def fileText (ls : List Line) : Str := ls.flatMap Line.text

/-- Only the last line may end with the file. -/
def EndsOnce (ls : List Line) : Prop := ∀ l ∈ ls.dropLast, l.ending ≠ .eof

/-- The stretches of a list that begin with its words. -/
def stretches : Word → List Further → List Str
  | w, [] => [stretch w []]
  | w, f :: fs => stretch w (f :: fs) :: stretches f.word fs

/-- Every token between blanks is shorter than the token buffer. -/
structure Line.InBuffer (l : Line) : Prop where
  label : l.label.text.length < gpiodTabMaxArgumentLength
  mods : ∀ s ∈ stretches l.first l.further, s.length < gpiodTabMaxArgumentLength
  tokens : ∀ t ∈ l.tokens, t.length < gpiodTabMaxArgumentLength

lemma Line.InBuffer.fits {l : Line} (h : l.InBuffer) : l.Fits :=
  ⟨(Nat.mod_le _ _).trans_lt h.label, fun t ht => (Nat.mod_le _ _).trans_lt (h.tokens t ht)⟩

lemma short_of_stretches {w : Word} {fs : List Further}
    (h : ∀ s ∈ stretches w fs, s.length < gpiodTabMaxArgumentLength) : Short w fs := by
  induction fs generalizing w with
  | nil => exact Nat.lt_trans (h _ (List.mem_singleton_self _)) (by decide)
  | cons f fs ih =>
    obtain ⟨hhead, hrest⟩ := List.forall_mem_cons.mp h
    exact ⟨Nat.lt_trans hhead (by decide), ih hrest⟩

def Line.body (l : Line) : Str :=
  l.lead ++ (l.label.text ++ (l.sep.text ++ (fieldText l.first l.further ++ (l.sep'.text ++
    (l.path.text ++ (piecesText l.args ++ (l.trail ++
      if l.ending = .crlf then [0x0d] else [])))))))

lemma Line.text_eq (l : Line) : l.text = l.body ++ if l.ending = .eof then [] else [0x0a] := by
  unfold Line.text Line.tail Line.body
  cases l.ending <;> simp [Ending.text]

lemma lf_of_blanks {b : Str} (hb : Blanks b) : 0x0a ∉ b := fun h => absurd (hb _ h) (by decide)

lemma lf_of_solid {p : Str} (hp : Solid p) : 0x0a ∉ p := fun h =>
  absurd (hp _ h).2 (by decide)

lemma lf_fieldText (w : Word) (fs : List Further) : 0x0a ∉ fieldText w fs := by
  induction fs generalizing w with
  | nil => exact lf_of_solid w.solid
  | cons f fs ih =>
    simp only [fieldText, List.mem_append, List.mem_cons, not_or]
    exact ⟨lf_of_solid w.solid, lf_of_blanks f.pre_blanks, by decide, lf_of_blanks f.post_blanks,
      ih f.word⟩

lemma lf_piecesText (args : List (Sep × Piece)) : 0x0a ∉ piecesText args := by
  induction args with
  | nil => exact List.not_mem_nil
  | cons a args ih =>
    obtain ⟨sep, p⟩ := a
    simp only [piecesText, List.mem_append, not_or]
    exact ⟨lf_of_blanks sep.blanks, lf_of_solid p.solid, ih⟩

lemma Line.lf_body (l : Line) : 0x0a ∉ l.body := by
  have hend : (0x0a : UInt8) ∉ if l.ending = .crlf then [(0x0d : UInt8)] else [] := by
    split <;> decide
  simp only [Line.body, List.mem_append, not_or]
  exact ⟨lf_of_blanks l.lead_blanks, lf_of_solid l.label.solid, lf_of_blanks l.sep.blanks,
    lf_fieldText _ _, lf_of_blanks l.sep'.blanks, lf_of_solid l.path.solid, lf_piecesText _,
    lf_of_blanks l.trail_blanks, hend⟩

lemma Line.body_ne (l : Line) : l.body ≠ [] := by
  simp [Line.body, l.label.ne]

lemma splitLines_line {s : Str} (h : 0x0a ∉ s) (rest : Str) :
    splitLines (s ++ 0x0a :: rest) = (s ++ [0x0a]) :: splitLines rest := by
  induction s with
  | nil => rfl
  | cons c s ih =>
    simp only [List.mem_cons, not_or] at h
    rw [List.cons_append, splitLines, if_neg (Ne.symm h.1), ih h.2]
    rfl

lemma splitLines_last {s : Str} (h : 0x0a ∉ s) (hne : s ≠ []) : splitLines s = [s] := by
  induction s with
  | nil => exact absurd rfl hne
  | cons c s ih =>
    simp only [List.mem_cons, not_or] at h
    rw [splitLines, if_neg (Ne.symm h.1)]
    cases s with
    | nil => rfl
    | cons d s => rw [ih h.2 (List.cons_ne_nil d s)]

/-- **The lines of a file** are those it was put together from. -/
lemma splitLines_fileText {ls : List Line} (h : EndsOnce ls) :
    splitLines (fileText ls) = ls.map Line.text := by
  induction ls with
  | nil => rfl
  | cons l ls ih =>
    have hfile : fileText (l :: ls) = l.text ++ fileText ls := rfl
    rw [hfile, l.text_eq, List.map_cons]
    cases ls with
    | nil =>
      cases he : l.ending with
      | eof => simpa [fileText, l.text_eq, he] using splitLines_last l.lf_body l.body_ne
      | _ => simpa [fileText, l.text_eq, he, splitLines] using splitLines_line l.lf_body []
    | cons l' ls =>
      have hne : l.ending ≠ .eof := h l List.mem_cons_self
      have hrest := ih fun k hk => h k (List.mem_cons_of_mem _ hk)
      rw [if_neg hne, List.append_assoc, List.singleton_append, splitLines_line l.lf_body, hrest,
        l.text_eq, if_neg hne]

/-- A file of lines whose words are names of modifiers, with tokens that fit the buffer. -/
structure NameFile (ls : List Line) : Prop where
  names : ∀ l ∈ ls, ∀ w ∈ l.words, IsName w
  inBuffer : ∀ l ∈ ls, l.InBuffer
  endsOnce : EndsOnce ls

/-- Two lines have the same contents. -/
structure SameContents (l l' : Line) : Prop where
  label : l.label.text = l'.label.text
  words : l.words = l'.words
  tokens : l.tokens = l'.tokens

/-- The pins after the lines of a file, by the contents of the lines. -/
def attachAll (gp_list : List GpioPin) (ls : List Line) : List GpioPin :=
  ls.foldl (fun gp_list l => attachHook gp_list l.label.text l.hook) gp_list

lemma attachAll_congr {ls ls' : List Line} (h : List.Forall₂ SameContents ls ls')
    (gp_list : List GpioPin) : attachAll gp_list ls = attachAll gp_list ls' := by
  induction h generalizing gp_list with
  | nil => rfl
  | @cons l l' ls ls' hl _ ih =>
    have hhook : l.hook = l'.hook := by rw [Line.hook, Line.hook, hl.words, hl.tokens]
    unfold attachAll at ih ⊢
    rw [List.foldl_cons, List.foldl_cons, hl.label, hhook]
    exact ih _

/-- The loop over the lines, whatever the buffer holds behind each. -/
lemma loadLines_names {ls : List Line} (hn : ∀ l ∈ ls, ∀ w ∈ l.words, IsName w)
    (hb : ∀ l ∈ ls, l.InBuffer) {lines : List (Str × Mem)}
    (h : lines.map Prod.fst = ls.map Line.text) (gp_list : List GpioPin) (buf : Mem) :
    TabBuffer.loadLines gp_list buf lines = .ok (attachAll gp_list ls) := by
  induction ls generalizing lines gp_list buf with
  | nil =>
    obtain rfl := List.map_eq_nil_iff.mp h
    rfl
  | cons l ls ih =>
    obtain ⟨⟨line, fresh⟩, lines, rfl, rfl, hrest⟩ := List.map_eq_cons_iff.mp h
    obtain ⟨hbl, hbls⟩ := List.forall_mem_cons.mp hb
    have hload := loadLine_names l (hn l List.mem_cons_self) (short_of_stretches hbl.mods)
      hbl.fits gp_list (buf.drop (l.text.length + 1) ++ fresh)
    rw [TabBuffer.loadLines, loadLinesBy_cons hload]
    exact ih (fun k hk => hn k (List.mem_cons_of_mem _ hk)) hbls hrest _ _

/-- **Loading a file of names** adds the hooks of the contents of its lines. -/
lemma loadTab_names {ls : List Line} (h : NameFile ls) (gp_list : List GpioPin)
    (fresh : ℕ → Mem) :
    TabBuffer.loadTab gp_list (some (fileText ls)) fresh = .ok (0, attachAll gp_list ls) := by
  have hlines : (fileLines (fileText ls) fresh).map Prod.fst = ls.map Line.text := by
    rw [← splitLines_fileText h.endsOnce]
    simp [fileLines, Function.comp_def]
  exact loadTabBy_text (loadLines_names h.names h.inBuffer hlines gp_list [])

/-- **Layout does not matter**: files of lines with the same contents add the same hooks to the
same pins. -/
theorem layout_free {ls ls' : List Line} (h : NameFile ls) (h' : NameFile ls')
    (hsame : List.Forall₂ SameContents ls ls') (gp_list : List GpioPin) (fresh fresh' : ℕ → Mem) :
    TabBuffer.loadTab gp_list (some (fileText ls)) fresh = .ok (0, attachAll gp_list ls) ∧
      TabBuffer.loadTab gp_list (some (fileText ls')) fresh' = .ok (0, attachAll gp_list ls) := by
  refine ⟨loadTab_names h gp_list fresh, ?_⟩
  rw [attachAll_congr hsame]
  exact loadTab_names h' gp_list fresh'

lemma wd0_solid : Solid (bytes "WD0") := by decide
lemma wd0_ne : bytes "WD0" ≠ [] := by decide
lemma bin_solid : Solid (bytes "/bin/a") := by decide
lemma bin_ne : bytes "/bin/a" ≠ [] := by decide
lemma bin_ne_comma : (bytes "/bin/a").head? ≠ some 0x2c := by decide
lemma rising_token : Solid (bytes "EDGE_RISING") ∧ bytes "EDGE_RISING" ≠ [] ∧
    0x2c ∉ bytes "EDGE_RISING" := by decide
lemma noLoop_token : Solid (bytes "NO_LOOP") ∧ bytes "NO_LOOP" ≠ [] ∧
    0x2c ∉ bytes "NO_LOOP" := by decide
lemma blanks_none : Blanks [] := by decide
lemma blanks_space : Blanks [0x20] := by decide
lemma blanks_tabs : Blanks [0x09, 0x09] := by decide

def wd0 : Piece := ⟨bytes "WD0", wd0_solid, wd0_ne⟩
def binA : Piece := ⟨bytes "/bin/a", bin_solid, bin_ne⟩
def risingWord : Word :=
  ⟨bytes "EDGE_RISING", rising_token.1, rising_token.2.1, rising_token.2.2⟩
def noLoopWord : Word := ⟨bytes "NO_LOOP", noLoop_token.1, noLoop_token.2.1, noLoop_token.2.2⟩
def space : Sep := ⟨[0x20], blanks_space, List.cons_ne_nil _ _⟩
def tabs : Sep := ⟨[0x09, 0x09], blanks_tabs, List.cons_ne_nil _ _⟩

/-- `WD0 EDGE_RISING,NO_LOOP /bin/a WD0` and a line feed. -/
def denseLine : Line :=
  ⟨[], wd0, space, risingWord, [⟨[], [], noLoopWord, blanks_none, blanks_none⟩], space, binA,
    [(space, wd0)], [], .lf, blanks_none, bin_ne_comma, blanks_none⟩

/-- The same with blanks around the comma, tabs and a carriage return. -/
def wideLine : Line :=
  ⟨[0x20], wd0, tabs, risingWord, [⟨[0x20], [0x09, 0x09], noLoopWord, blanks_space, blanks_tabs⟩],
    tabs, binA, [(tabs, wd0)], [0x20], .crlf, blanks_space, bin_ne_comma, blanks_space⟩

lemma denseLine_file : NameFile [denseLine] where
  names := by decide
  inBuffer := List.forall_mem_singleton.mpr ⟨by decide, by decide, by decide⟩
  endsOnce := by simp [EndsOnce]

lemma wideLine_file : NameFile [wideLine] where
  names := by decide
  inBuffer := List.forall_mem_singleton.mpr ⟨by decide, by decide, by decide⟩
  endsOnce := by simp [EndsOnce]

def wd0Pin : GpioPin := ⟨bytes "WD0", 0, .sysfs, .both, 0, []⟩

theorem dense_wide_same :
    TabBuffer.loadTab [wd0Pin] (some (fileText [denseLine])) (fun _ => []) =
        .ok (0, attachAll [wd0Pin] [denseLine]) ∧
      TabBuffer.loadTab [wd0Pin] (some (fileText [wideLine])) (fun _ => []) =
        .ok (0, attachAll [wd0Pin] [denseLine]) :=
  layout_free denseLine_file wideLine_file (.cons ⟨rfl, rfl, rfl⟩ .nil) [wd0Pin] _ _

end Gpiod.Layout
