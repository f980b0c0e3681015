import Gpiod.TabMods
import Gpiod.Dispatch

/-!
From the names on a tab line to the events its hook is launched for.

The flags of the hook join the codes of the words read, the dispatcher reads four bits of
them back. A bit no name asked for shows where a hook runs on an edge the line does not
name, or is held back by a flag it does not name.
-/

namespace Gpiod.EdgeSelect

open Gpiod.Pin Gpiod.TabScan Gpiod.TabField Gpiod.TabRoute Gpiod.Mask Gpiod.TabMods
open Gpiod.Dispatch

def RisingNamed (ns : List ModName) : Prop := .edgeRising ∈ ns ∨ .edgeBoth ∈ ns
def FallingNamed (ns : List ModName) : Prop := .edgeFalling ∈ ns ∨ .edgeBoth ∈ ns

instance (ns : List ModName) : Decidable (RisingNamed ns) := inferInstanceAs (Decidable (_ ∨ _))
instance (ns : List ModName) : Decidable (FallingNamed ns) := inferInstanceAs (Decidable (_ ∨ _))

/-- The hook `h`, in a state it may have come to. -/
def inState (h : GpiodHook) (fired spawned : ℤ) : GpiodHook :=
  { h with fired := fired, spawned := spawned }

/-- In every state of the hook, `dispatch_hooks` launches it on named edges only, and neither
a running launch nor an earlier one holds it back where the flag for that is not named. -/
structure EdgeSelection (ns : List ModName) (h : GpiodHook) : Prop where
  rising : ∀ d r fired spawned (x : Returns), d.hook? r = some (inState h fired spawned) →
    Calls d r GpiodEdge.rising.code x.exec → RisingNamed ns
  falling : ∀ d r fired spawned (x : Returns), d.hook? r = some (inState h fired spawned) →
    Calls d r GpiodEdge.falling.code x.exec → FallingNamed ns
  running : .noLoop ∉ ns → ∀ d d' r event fired spawned (x : Returns),
    d.hook? r = some (inState h fired spawned) → d'.hook? r = some (inState h fired (-1)) →
      (Calls d r event x.exec ↔ Calls d' r event x.exec)
  launched : .oneshot ∉ ns → ∀ d d' r event fired spawned (x : Returns),
    d.hook? r = some (inState h fired spawned) → d'.hook? r = some (inState h 0 spawned) →
      (Calls d r event x.exec ↔ Calls d' r event x.exec)

/-! ### The four bits -/

/-- A daemon whose only hook is the given one. -/
def single (h : GpiodHook) : Daemon := ⟨[⟨[], 0, .sysfs, .both, 0, [h]⟩], []⟩

lemma single_hook? (h : GpiodHook) : (single h).hook? ⟨0, 0⟩ = some h := rfl

lemma runs_rising (h : GpiodHook) : runs (inState h 0 (-1)) GpiodEdge.rising.code = true ↔
    h.flags &&& hooktabModRise ≠ 0 := by
  simp [runs, inProgress, alreadyFired, applicable, inState]

lemma runs_falling (h : GpiodHook) : runs (inState h 0 (-1)) GpiodEdge.falling.code = true ↔
    h.flags &&& hooktabModFall ≠ 0 := by
  simp [runs, inProgress, alreadyFired, applicable, inState, GpiodEdge.code]

/-- Where NO_LOOP is not named, the bit for it stands without those of the edges: with a child
running it would hold the hook back. -/
lemma EdgeSelection.noLoop_bit {ns : List ModName} {h : GpiodHook} (hs : EdgeSelection ns h)
    (hb : h.flags &&& hooktabModNoLoop ≠ 0) (hns : .noLoop ∉ ns) :
    h.flags &&& hooktabModRise = 0 ∧ h.flags &&& hooktabModFall = 0 := by
  have hheld : ∀ event, runs (inState h 0 0) event = false := by
    intro event
    have hbit : (h.flags &&& hooktabModNoLoop != 0) = true := by simpa using hb
    simp [runs, inProgress, inState, hbit]
  have hfree : ∀ event, runs (inState h 0 (-1)) event = false := by
    intro event
    have hsame := hs.running hns _ _ _ event 0 0 noExec (single_hook? _) (single_hook? _)
    rw [calls_iff _ _ (single_hook? _), calls_iff _ _ (single_hook? _), hheld] at hsame
    simpa using hsame
  constructor
  · by_contra hr
    have hrun := (runs_rising h).mpr hr
    rw [hfree] at hrun
    cases hrun
  · by_contra hf
    have hrun := (runs_falling h).mpr hf
    rw [hfree] at hrun
    cases hrun

lemma bit_of_runs {h : GpiodHook} {fired spawned : ℤ} :
    (runs (inState h fired spawned) GpiodEdge.rising.code = true → h.flags &&& hooktabModRise ≠ 0) ∧
      (runs (inState h fired spawned) GpiodEdge.falling.code = true →
        h.flags &&& hooktabModFall ≠ 0) := by
  simp only [runs, applicable, inState, Bool.and_eq_true]
  exact ⟨fun hr => by simpa using hr.2, fun hr => by simpa [GpiodEdge.code] using hr.2⟩

/-- What the bits of a hook that never carries the ONESHOT bit must be. -/
lemma edgeSelection_iff_bits {ns : List ModName} {h : GpiodHook}
    (hone : h.flags &&& hooktabModOneshot = 0) :
    EdgeSelection ns h ↔
      (h.flags &&& hooktabModRise ≠ 0 → RisingNamed ns) ∧
      (h.flags &&& hooktabModFall ≠ 0 → FallingNamed ns) ∧
      (h.flags &&& hooktabModNoLoop ≠ 0 → .noLoop ∈ ns ∨
        h.flags &&& hooktabModRise = 0 ∧ h.flags &&& hooktabModFall = 0) := by
  constructor
  · intro hs
    refine ⟨fun hb => ?_, fun hb => ?_, fun hb => or_iff_not_imp_left.mpr (hs.noLoop_bit hb)⟩
    · exact hs.rising _ _ 0 (-1) noExec (single_hook? _)
        ((calls_iff _ _ (single_hook? _)).mpr ((runs_rising h).mpr hb))
    · exact hs.falling _ _ 0 (-1) noExec (single_hook? _)
        ((calls_iff _ _ (single_hook? _)).mpr ((runs_falling h).mpr hb))
  · rintro ⟨hr, hf, hn⟩
    refine ⟨?_, ?_, ?_, ?_⟩
    · intro d r fired spawned x hd hcall
      exact hr (bit_of_runs.1 ((calls_iff _ _ hd).mp hcall))
    · intro d r fired spawned x hd hcall
      exact hf (bit_of_runs.2 ((calls_iff _ _ hd).mp hcall))
    · intro hns d d' r event fired spawned x hd hd'
      rw [calls_iff _ _ hd, calls_iff _ _ hd']
      by_cases hb : h.flags &&& hooktabModNoLoop = 0
      · simp [runs, inProgress, alreadyFired, applicable, inState, hb]
      · obtain ⟨hb1, hb2⟩ := (hn hb).resolve_left hns
        simp [runs, applicable, inState, hb1, hb2]
    · intro _ d d' r event fired spawned x hd hd'
      rw [calls_iff _ _ hd, calls_iff _ _ hd']
      simp [runs, inProgress, alreadyFired, applicable, inState, hone]

/-! ### The codes of the words -/

section Codes

variable {m : ModName} {w : Str} (hw : w <+: m.text)
include hw

lemma code_oneshot : tabParseMod w &&& hooktabModOneshot = 0 := by
  obtain ⟨k, hk, rfl⟩ := eq_take_of_begin hw
  clear hw
  revert k
  cases m <;> decide

/-- The rising bit is set by the names for it, by the name ONESHOT, and by what is too short
to tell one edge name from another. -/
lemma code_rise : tabParseMod w &&& hooktabModRise ≠ 0 ↔
    RisingNamed [m] ∨ (w <+: ModName.oneshot.text ∧ w ≠ []) ∨ w <+: bytes "EDGE_" := by
  obtain ⟨k, hk, rfl⟩ := eq_take_of_begin hw
  clear hw
  revert k
  cases m <;> decide

lemma code_fall (h : tabParseMod w &&& hooktabModFall ≠ 0) : FallingNamed [m] := by
  obtain ⟨k, hk, rfl⟩ := eq_take_of_begin hw
  clear hw
  revert k
  cases m <;> decide

lemma code_noLoop : tabParseMod w &&& hooktabModNoLoop ≠ 0 ↔
    (m = .noLoop ∧ w ≠ []) ∨ (w <+: ModName.oneshot.text ∧ w ≠ []) := by
  obtain ⟨k, hk, rfl⟩ := eq_take_of_begin hw
  clear hw
  revert k
  cases m <;> decide

end Codes

/-! ### The line -/

/-- The hook of a line never carries the ONESHOT bit. -/
lemma lineHook_oneshot_bit (l : TabLine) {stale : Mem} {hook : GpiodHook}
    (h : lineHook (l.text ++ 0 :: stale) = .ok hook) : hook.flags &&& hooktabModOneshot = 0 := by
  rw [lineHook_flags l h, join_and_eq_zero_iff]
  refine ⟨by decide, fun w hw => ?_⟩
  obtain ⟨m, -, hm⟩ := l.read_begin_name w hw
  exact code_oneshot hm

/-- No word of the line sets a bit the line does not name: one read as ONESHOT sets the bits
of EDGE_RISING and NO_LOOP, one that is cut too short to tell the edge sets that of
EDGE_RISING. -/
def ReadSelects (l : TabLine) : Prop :=
  ((∃ w ∈ l.read, w <+: ModName.oneshot.text ∧ w ≠ []) → .noLoop ∈ l.names ∧ RisingNamed l.names) ∧
    ((∃ w ∈ l.read, w <+: bytes "EDGE_") → RisingNamed l.names)

lemma RisingNamed.of_mem {m : ModName} {ns : List ModName} (hm : m ∈ ns) (h : RisingNamed [m]) :
    RisingNamed ns := by
  simp only [RisingNamed, List.mem_singleton] at h
  rcases h with rfl | rfl
  · exact Or.inl hm
  · exact Or.inr hm

lemma FallingNamed.of_mem {m : ModName} {ns : List ModName} (hm : m ∈ ns)
    (h : FallingNamed [m]) : FallingNamed ns := by
  simp only [FallingNamed, List.mem_singleton] at h
  rcases h with rfl | rfl
  · exact Or.inl hm
  · exact Or.inr hm

/-- On a short line the condition is on its names: ONESHOT stands only beside NO_LOOP and a
name for the rising edge. -/
theorem readSelects_short (l : TabLine) (hs : Short l.first l.further) :
    ReadSelects l ↔ (.oneshot ∈ l.names → .noLoop ∈ l.names ∧ RisingNamed l.names) := by
  have hread : l.read = l.names.map ModName.text := words_of_short hs
  have hshot : (∃ w ∈ l.read, w <+: ModName.oneshot.text ∧ w ≠ []) ↔ .oneshot ∈ l.names := by
    rw [hread]
    constructor
    · rintro ⟨w, hw, hc, -⟩
      obtain ⟨m, hm, rfl⟩ := List.mem_map.mp hw
      cases m
      case oneshot => exact hm
      all_goals exact absurd hc (by decide)
    · intro hm
      exact ⟨_, List.mem_map_of_mem hm, List.prefix_refl _, text_ne _⟩
  have hedge : ¬ ∃ w ∈ l.read, w <+: bytes "EDGE_" := by
    rw [hread]
    rintro ⟨w, hw, hc⟩
    obtain ⟨m, -, rfl⟩ := List.mem_map.mp hw
    revert hc
    cases m <;> decide
  rw [ReadSelects, hshot]
  exact and_iff_left fun hc => absurd hc hedge

/-- **Which lines select their edges.** -/
theorem edgeSelection_iff (l : TabLine) {stale : Mem} {hook : GpiodHook}
    (h : lineHook (l.text ++ 0 :: stale) = .ok hook) :
    EdgeSelection l.names hook ↔ ReadSelects l := by
  have hread := l.read_begin_name
  rw [edgeSelection_iff_bits (lineHook_oneshot_bit l h), lineHook_flags l h]
  simp only [join_zero_and_ne_zero_iff]
  constructor
  · rintro ⟨hr, -, hn⟩
    have hrise : ∀ w ∈ l.read, (w <+: ModName.oneshot.text ∧ w ≠ []) ∨ w <+: bytes "EDGE_" →
        tabParseMod w &&& hooktabModRise ≠ 0 := by
      intro w hw hc
      obtain ⟨m, -, hm⟩ := hread w hw
      exact (code_rise hm).mpr (Or.inr hc)
    refine ⟨?_, ?_⟩
    · rintro ⟨w, hw, hc⟩
      obtain ⟨m, -, hm⟩ := hread w hw
      refine ⟨(hn ⟨w, hw, (code_noLoop hm).mpr (Or.inr hc)⟩).resolve_right fun hz => ?_,
        hr ⟨w, hw, hrise w hw (Or.inl hc)⟩⟩
      exact join_zero_and_ne_zero_iff tabParseMod |>.mpr ⟨w, hw, hrise w hw (Or.inl hc)⟩ hz.1
    · rintro ⟨w, hw, hc⟩
      exact hr ⟨w, hw, hrise w hw (Or.inr hc)⟩
  · rintro ⟨hshot, hedge⟩
    refine ⟨?_, ?_, ?_⟩
    · rintro ⟨w, hw, hb⟩
      obtain ⟨m, hmem, hm⟩ := hread w hw
      rcases (code_rise hm).mp hb with hn | hc | hc
      · exact hn.of_mem hmem
      · exact (hshot ⟨w, hw, hc⟩).2
      · exact hedge ⟨w, hw, hc⟩
    · rintro ⟨w, hw, hb⟩
      obtain ⟨m, hmem, hm⟩ := hread w hw
      exact (code_fall hm hb).of_mem hmem
    · rintro ⟨w, hw, hb⟩
      obtain ⟨m, hmem, hm⟩ := hread w hw
      rcases (code_noLoop hm).mp hb with ⟨rfl, -⟩ | hc
      · exact Or.inl hmem
      · exact Or.inl (hshot ⟨w, hw, hc⟩).1

/-- A line of the pin WD5 with one name or two. -/
def wd5Line (first : ModName) (further : List Further) : TabLine where
  lead := []
  label := bytes "WD5"
  sep := bytes " "
  first := first
  further := further
  rest := bytes " /bin/a\n"
  lead_blanks := by decide
  label_solid := by decide
  label_ne := by decide
  sep_blanks := by decide
  sep_ne := by decide
  rest_stops r hr := by cases hr; decide
  rest_ends := TabLine.ends_of_no_comma (by decide)

def wd5 : GpioPin := ⟨bytes "WD5", 5, .sysfs, .both, 0, []⟩

def wd5Hook (flags : ℕ) : GpiodHook := ⟨bytes "/bin/a", flags, 0, -1, 1, [⟨.max, none⟩]⟩

theorem both_line_selects : EdgeSelection [.edgeBoth] (wd5Hook 3) := by
  have hline : lineHook ((wd5Line .edgeBoth []).text ++ [0]) = .ok (wd5Hook 3) := by decide
  refine (edgeSelection_iff (wd5Line .edgeBoth []) hline).mpr ?_
  refine ⟨?_, fun _ => Or.inr (by decide)⟩
  rintro ⟨w, hw, hc, -⟩
  obtain rfl : w = ModName.edgeBoth.text := by simpa [TabLine.read, words, wd5Line] using hw
  exact absurd hc (by decide)

/-- A hook whose line names the falling edge and ONESHOT is launched on a rising edge. -/
theorem falling_oneshot_rises :
    (wd5Line .edgeFalling [behindComma .oneshot]).text =
        bytes "WD5 EDGE_FALLING,ONESHOT /bin/a\n" ∧
      loadTab [wd5] (some (wd5Line .edgeFalling [behindComma .oneshot]).text) (fun _ => []) =
        .ok (0, [wd5.addHook (wd5Hook 7)]) ∧
      ¬ EdgeSelection (wd5Line .edgeFalling [behindComma .oneshot]).names (wd5Hook 7) := by
  refine ⟨by decide, by decide, fun hs => ?_⟩
  have := hs.rising _ _ 0 (-1) noExec (single_hook? _)
    ((calls_iff _ _ (single_hook? _)).mpr (by decide))
  revert this
  decide

end Gpiod.EdgeSelect
