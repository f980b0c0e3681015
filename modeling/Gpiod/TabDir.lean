import Gpiod.TabConfined

/-!
Loading the directory of tab files.

`readdir` gives the files in no particular order, and a file is read in a buffer that holds what
the allocator left there. Neither has a say in which hooks a pin gets: each line that the token
buffer has room for adds the hook it would add if it were the only one.
-/

namespace Gpiod.TabDir

open Gpiod.Pin Gpiod.TabScan Gpiod.TabField Gpiod.TabArgs Gpiod.TabRoute Gpiod.TabBounds
open Gpiod.TabBuffer (loadLine_eq tabHook_of_short)
open Gpiod.TabConfined (Roomy roomy_of_load)

/-- An entry of the directory: the contents of the file, where it can be opened, and the bytes the
buffer grows by. To read a directory fails at once, as at the end of a file: `.` and `..` are
empty. -/
structure Dirent where
  file : Option Str
  fresh : ℕ → Mem

/-- What `readdir` gives, and whether the end comes without an error. -/
structure Dir where
  entries : List Dirent
  ended : Bool

/-- `loadTabs` on a directory, or on none where it cannot be opened. What `loadTab` returns is not
looked at. -/
def loadTabs (gp_list : List GpioPin) : Option Dir → Except Fault (ℤ × List GpioPin)
  | none => return (-1, gp_list)
  | some dir => do
    let gp_list ← dir.entries.foldlM (fun gp_list e =>
      (TabBuffer.loadTab gp_list e.file e.fresh).map Prod.snd) gp_list
    return (if dir.ended then 0 else -1, gp_list)

/-! ### What a line adds -/

/-- The position of the pin that the line names, and the hook that it is by itself. -/
def lineAdd (gp_list : List GpioPin) (line : Str) : Option (ℕ × GpiodHook) := do
  let k ← findPinByLabel gp_list (keep (firstToken line))
  let hook ← (lineHook (line ++ [0])).toOption
  return (k, hook)

def addLine (gp_list : List GpioPin) (l : List GpioPin) (line : Str) : List GpioPin :=
  attach l (lineAdd gp_list line)

def Dirent.lines (e : Dirent) : List Str := splitLines (e.file.getD [])

/-- The hooks that the lines add to a pin. -/
def hooksFor (gp_list : List GpioPin) (i : ℕ) (lines : List Str) : List GpiodHook :=
  lines.filterMap fun line =>
    (lineAdd gp_list line).bind fun a => if a.1 = i then some a.2 else none

/-- The file ends with a line feed, where it is not empty, and the token buffer has room for its
lines. -/
structure Dirent.Complete (gp_list : List GpioPin) (e : Dirent) : Prop where
  ends : ∀ text, e.file = some text → text = [] ∨ text.getLast? = some 0x0a
  roomy : ∀ line ∈ e.lines, Roomy gp_list line

section Adds

variable {gp_list l l' : List GpioPin} {line : Str} {e : Dirent} {dir : Dir} {i : ℕ}

lemma attach_labels (l : List GpioPin) (made : Option (ℕ × GpiodHook)) :
    (attach l made).map (·.label) = l.map (·.label) := by
  rcases made with _ | ⟨k, hook⟩
  · rfl
  · refine List.ext_getElem? fun j => ?_
    simp only [attach, List.getElem?_map, List.getElem?_modify]
    cases l[j]? with
    | none => rfl
    | some pin => by_cases hkj : k = j <;> simp [hkj]

/-- **A line** adds the same hook to the same pin, whatever hooks the pins have and whatever the
buffer holds behind it. -/
lemma loadLine_add (hnl : (0x0a : UInt8) ∈ line) (hroomy : Roomy gp_list line)
    (hl : l.map (·.label) = gp_list.map (·.label)) (stale : Mem) :
    TabBuffer.loadLine l (line ++ 0 :: stale) = .ok (addLine gp_list l line) := by
  refine loadLine_eq.mpr ⟨hroomy.label, ?_⟩
  rw [findPinByLabel_congr hl, addLine, lineAdd]
  cases hf : findPinByLabel gp_list (keep (firstToken line)) with
  | none => rfl
  | some k =>
    have hfound : LabelFound gp_list line := (labelFound_iff gp_list line).mpr (by rw [hf]; nofun)
    obtain ⟨ws, ts, hreads⟩ := (reads_finished (afterToken line)).resolve_left fun hu =>
      hu.no_newline (afterToken_newline hnl)
    have hline : lineHook (line ++ [0]) = .ok (hookOf (Mask.join wordFlags 0 ws) ts) := by
      rw [lineHook, tabLabel_eq]
      exact (hreads []).tabHook
    refine ⟨_, tabHook_of_short (hreads stale) (hroomy.hook hfound ws ts (hreads [])), ?_⟩
    rw [hline]
    rfl

lemma loadLines_add {lines : List (Str × Mem)}
    (hnl : ∀ line ∈ lines, (0x0a : UInt8) ∈ line.1 ∧ Roomy gp_list line.1)
    (hl : l.map (·.label) = gp_list.map (·.label)) (buf : Mem) :
    TabBuffer.loadLines l buf lines = .ok ((lines.map Prod.fst).foldl (addLine gp_list) l) := by
  induction lines generalizing l buf with
  | nil => rfl
  | cons line lines ih =>
    obtain ⟨⟨hfirst, hroomy⟩, hrest⟩ := List.forall_mem_cons.mp hnl
    have hstep := loadLine_add hfirst hroomy hl (buf.drop (line.1.length + 1) ++ line.2)
    have hl' : (addLine gp_list l line.1).map (·.label) = gp_list.map (·.label) :=
      (attach_labels l _).trans hl
    rw [TabBuffer.loadLines, loadLinesBy_cons hstep]
    exact ih hrest hl' _

lemma loadTab_add (hc : e.Complete gp_list) (hl : l.map (·.label) = gp_list.map (·.label)) :
    (TabBuffer.loadTab l e.file e.fresh).map Prod.snd =
      .ok (e.lines.foldl (addLine gp_list) l) := by
  obtain ⟨file, fresh⟩ := e
  obtain ⟨hends, hroomy⟩ := hc
  cases file with
  | none => rfl
  | some text =>
    have hnl : ∀ line ∈ fileLines text fresh,
        (0x0a : UInt8) ∈ line.1 ∧ Roomy gp_list line.1 := fun line hline => by
      have hmem : line.1 ∈ splitLines text := mem_fileLines.mp ⟨line, hline, rfl⟩
      refine ⟨?_, hroomy line.1 hmem⟩
      rcases hends text rfl with rfl | hlast
      · cases hmem
      · exact splitLines_newline hlast _ hmem
    have hfst : (fileLines text fresh).map Prod.fst = splitLines text := by
      simp [fileLines, Function.comp_def]
    have hload := loadLines_add hnl hl []
    rw [hfst] at hload
    rw [TabBuffer.loadTab, loadTabBy_text hload]
    rfl

lemma foldl_labels (lines : List Str) (l : List GpioPin) :
    (lines.foldl (addLine gp_list) l).map (·.label) = l.map (·.label) := by
  induction lines generalizing l with
  | nil => rfl
  | cons line lines ih => exact (ih _).trans (attach_labels l _)

lemma loadTabs_add (hc : ∀ e ∈ dir.entries, e.Complete gp_list) :
    loadTabs gp_list (some dir) = .ok (if dir.ended then 0 else -1,
      (dir.entries.flatMap Dirent.lines).foldl (addLine gp_list) gp_list) := by
  have hrun : ∀ (entries : List Dirent) (l : List GpioPin),
      (∀ e ∈ entries, e.Complete gp_list) → l.map (·.label) = gp_list.map (·.label) →
      entries.foldlM
        (fun gp_list e => (TabBuffer.loadTab gp_list e.file e.fresh).map Prod.snd) l =
        .ok ((entries.flatMap Dirent.lines).foldl (addLine gp_list) l) := by
    intro entries
    induction entries with
    | nil => exact fun l _ _ => rfl
    | cons e entries ih =>
      intro l hc hl
      obtain ⟨hfirst, hrest⟩ := List.forall_mem_cons.mp hc
      rw [List.foldlM_cons, loadTab_add hfirst hl, List.flatMap_cons, List.foldl_append]
      exact ih _ hrest ((foldl_labels _ l).trans hl)
  rw [loadTabs, hrun dir.entries gp_list hc rfl]
  rfl

lemma foldl_getElem? (lines : List Str) (l : List GpioPin) (i : ℕ) :
    (lines.foldl (addLine gp_list) l)[i]? = l[i]?.map fun pin =>
      { pin with hook_list := pin.hook_list ++ hooksFor gp_list i lines } := by
  induction lines generalizing l with
  | nil => simp [hooksFor]
  | cons line lines ih =>
    rw [List.foldl_cons, ih, addLine]
    cases hadd : lineAdd gp_list line with
    | none => simp [attach, hooksFor, hadd]
    | some a =>
      rw [attach, List.getElem?_modify]
      by_cases hk : a.1 = i <;> cases l[i]? <;> simp [hk, hooksFor, hadd, GpioPin.addHook]

/-- **The directory**: whatever the order of the files and the bytes their buffers are given, a pin
gets the same hooks, in another order at most; in the order of the lines, each that which its line
gives by itself. -/
theorem loadTabs_hooks (gp_list : List GpioPin) (dir dir' : Dir)
    (hc : ∀ e ∈ dir.entries, e.Complete gp_list)
    (hp : (dir.entries.map Dirent.file).Perm (dir'.entries.map Dirent.file)) :
    ∃ l l', loadTabs gp_list (some dir) = .ok (if dir.ended then 0 else -1, l) ∧
      loadTabs gp_list (some dir') = .ok (if dir'.ended then 0 else -1, l') ∧
      l.length = gp_list.length ∧ l'.length = gp_list.length ∧
      ∀ (i : ℕ) (pin : GpioPin), gp_list[i]? = some pin → ∃ hooks hooks' : List GpiodHook,
        hooks = hooksFor gp_list i (dir.entries.flatMap Dirent.lines) ∧ hooks.Perm hooks' ∧
        l[i]? = some { pin with hook_list := pin.hook_list ++ hooks } ∧
        l'[i]? = some { pin with hook_list := pin.hook_list ++ hooks' } := by
  have hc' : ∀ e ∈ dir'.entries, e.Complete gp_list := by
    intro e he
    have hmem : e.file ∈ dir.entries.map Dirent.file := hp.mem_iff.mpr (List.mem_map_of_mem he)
    obtain ⟨d, hd, hfile⟩ := List.mem_map.mp hmem
    refine ⟨fun text htext => (hc d hd).ends text (hfile.trans htext), fun line hline => ?_⟩
    exact (hc d hd).roomy line (by rwa [Dirent.lines, hfile])
  have hlen : ∀ lines : List Str,
      (lines.foldl (addLine gp_list) gp_list).length = gp_list.length := fun lines => by
    have hlabels : (lines.foldl (addLine gp_list) gp_list).map (·.label) =
        gp_list.map (·.label) := foldl_labels lines gp_list
    simpa using congrArg List.length hlabels
  have hlines : (dir.entries.flatMap Dirent.lines).Perm (dir'.entries.flatMap Dirent.lines) := by
    have := hp.flatMap_right fun file : Option Str => splitLines (file.getD [])
    rwa [List.flatMap_map, List.flatMap_map] at this
  refine ⟨_, _, loadTabs_add hc, loadTabs_add hc', hlen _, hlen _, fun i pin hpin => ?_⟩
  refine ⟨_, _, rfl, hlines.filterMap _, ?_, ?_⟩
  · rw [foldl_getElem?, hpin]
    rfl
  · rw [foldl_getElem?, hpin]
    rfl

end Adds

lemma complete_of_line {gp_list gp_list' : List GpioPin} {text : Str}
    (hsplit : splitLines text = [text]) (hlast : text.getLast? = some 0x0a)
    (h : TabBuffer.loadLine gp_list (text ++ [0]) = .ok gp_list') (fresh : ℕ → Mem) :
    (⟨some text, fresh⟩ : Dirent).Complete gp_list := by
  refine ⟨fun text' htext => ?_, fun line hline => ?_⟩
  · obtain rfl := Option.some.inj htext
    exact Or.inr hlast
  · have hmem : line ∈ splitLines text := hline
    rw [hsplit] at hmem
    obtain rfl := List.mem_singleton.mp hmem
    exact (roomy_of_load h).1

def binHook (path : Str) : GpiodHook := ⟨path, 3, 0, -1, 1, [terminator]⟩

lemma wd10_loads :
    TabBuffer.loadLine wd10wd1 (bytes "WD10 EDGE_BOTH /bin/a\n" ++ [0]) =
        .ok (wd10wd1.modify 0 (·.addHook (binHook (bytes "/bin/a")))) ∧
      TabBuffer.loadLine wd10wd1 (bytes "WD10 EDGE_BOTH /bin/b\n" ++ [0]) =
        .ok (wd10wd1.modify 0 (·.addHook (binHook (bytes "/bin/b")))) := by decide

lemma wd10_complete (fresh : ℕ → Mem) :
    (⟨some (bytes "WD10 EDGE_BOTH /bin/a\n"), fresh⟩ : Dirent).Complete wd10wd1 ∧
      (⟨some (bytes "WD10 EDGE_BOTH /bin/b\n"), fresh⟩ : Dirent).Complete wd10wd1 :=
  ⟨complete_of_line (by decide) (by decide) wd10_loads.1 fresh,
    complete_of_line (by decide) (by decide) wd10_loads.2 fresh⟩

/-- Two files for one pin, in the one order and the other. -/
theorem loadTabs_either_order : ∃ l l',
    loadTabs wd10wd1 (some ⟨[⟨some (bytes "WD10 EDGE_BOTH /bin/a\n"), fun _ => []⟩,
      ⟨some (bytes "WD10 EDGE_BOTH /bin/b\n"), fun _ => []⟩], true⟩) = .ok (0, l) ∧
    loadTabs wd10wd1 (some ⟨[⟨some (bytes "WD10 EDGE_BOTH /bin/b\n"), fun _ => [1]⟩,
      ⟨some (bytes "WD10 EDGE_BOTH /bin/a\n"), fun _ => []⟩], true⟩) = .ok (0, l') ∧
    ∀ (i : ℕ) (pin : GpioPin), wd10wd1[i]? = some pin → ∃ hooks hooks', hooks.Perm hooks' ∧
      l[i]? = some { pin with hook_list := pin.hook_list ++ hooks } ∧
      l'[i]? = some { pin with hook_list := pin.hook_list ++ hooks' } := by
  obtain ⟨l, l', hl, hl', -, -, hpins⟩ := loadTabs_hooks wd10wd1
    ⟨[⟨some (bytes "WD10 EDGE_BOTH /bin/a\n"), fun _ => []⟩,
      ⟨some (bytes "WD10 EDGE_BOTH /bin/b\n"), fun _ => []⟩], true⟩
    ⟨[⟨some (bytes "WD10 EDGE_BOTH /bin/b\n"), fun _ => [1]⟩,
      ⟨some (bytes "WD10 EDGE_BOTH /bin/a\n"), fun _ => []⟩], true⟩
    (List.forall_mem_cons.mpr ⟨(wd10_complete _).1,
      List.forall_mem_singleton.mpr (wd10_complete _).2⟩)
    (List.Perm.swap _ _ [])
  refine ⟨l, l', hl, hl', fun i pin hpin => ?_⟩
  obtain ⟨hooks, hooks', -, hperm, hi, hi'⟩ := hpins i pin hpin
  exact ⟨hooks, hooks', hperm, hi, hi'⟩

end Gpiod.TabDir
